import Lookahead.Proofs.Text.Quoted
import Lookahead.Tree
import Mathlib.Data.List.Basic

/-!
The printed tree determines the tree. It has a line for each node, and the argument takes it apart
from the outside: the text into its lines, a line into the depth of its node and what is said of the
node, and the lines into the tree.

`Node.preorder` is the list of all nodes with their depths, parents first, and the printed lines are
made of its entries one by one (`lines_eq_map`). That a line can be read back is a matter of
characters: each part of it is a run of characters of some kind, which ends where another character
follows, or a quoted text (`eq_of_line_eq`). That the list of nodes determines the tree is a matter
of depths alone: what is below a node goes on until a line is not deeper than the node
(`preorder_append_inj`).
-/

namespace Lookahead

/-! ### Runs of characters -/

/-- A run of characters of one kind is known where a character of another kind follows. -/
theorem append_cons_inj_of_run {p : Char → Bool} {a b x y : List Char} {d d' : Char}
    (ha : ∀ c ∈ a, p c = true) (hb : ∀ c ∈ b, p c = true) (hd : p d = false) (hd' : p d' = false)
    (h : a ++ d :: x = b ++ d' :: y) : a = b ∧ d = d' ∧ x = y := by
  have hrun {a x : List Char} {d : Char} (ha : ∀ c ∈ a, p c = true) (hd : p d = false) :
      (a ++ d :: x).takeWhile p = a := by
    rw [List.takeWhile_append_of_pos ha, List.takeWhile_cons_of_neg (by simp [hd]), List.append_nil]
  have hab : a = b := by rw [← hrun ha hd, h, hrun hb hd']
  rw [hab] at h
  exact ⟨hab, List.cons.inj (List.append_cancel_left h)⟩

/-! ### Positions -/

def isNumeralChar (c : Char) : Bool := c.isDigit || c == '-'

theorem isNumeralChar_of_mem_toString {i : Int} {c : Char} (h : c ∈ (toString i).toList) :
    isNumeralChar c = true := by
  have hdigit {n : Nat} (h : c ∈ n.repr.toList) : isNumeralChar c = true := by
    rw [Nat.repr_eq_ofList_toDigits, String.toList_ofList] at h
    rw [isNumeralChar, Nat.isDigit_of_mem_toDigits (by decide) (by decide) h, Bool.true_or]
  rw [Int.toString_eq_repr, Int.repr_eq_if] at h
  split at h
  · exact hdigit h
  · rw [String.toList_append, List.mem_append] at h
    rcases h with h | h
    · rw [show c = '-' by simpa using h]
      rfl
    · exact hdigit h

theorem repr_injective {m n : Nat} (h : m.repr = n.repr) : m = n := by
  have hdigits := congrArg String.toList h
  rw [Nat.toList_repr, Nat.toList_repr] at hdigits
  rw [← Nat.ofDigitChars_ten_toDigits (n := m), hdigits, Nat.ofDigitChars_ten_toDigits]

/-- A sign is no digit, so it tells which side of zero a number is on. -/
theorem toString_injective {i j : Int} (h : toString i = toString j) : i = j := by
  have hsign {m n : Nat} : m.repr ≠ "-" ++ n.repr := by
    intro h
    have hmem : '-' ∈ Nat.toDigits 10 m := by
      rw [← Nat.toList_repr, h]
      simp
    exact absurd (Nat.isDigit_of_mem_toDigits (by decide) (by decide) hmem) (by decide)
  rw [Int.toString_eq_repr, Int.toString_eq_repr, Int.repr_eq_if, Int.repr_eq_if] at h
  split at h <;> split at h
  · have := repr_injective h
    omega
  · exact absurd h hsign
  · exact absurd h.symm hsign
  · have := repr_injective (String.append_right_inj "-" |>.mp h)
    omega

variable {d d' : Char} {x y : List Char}

theorem toString_append_cons_inj {i j : Int} (hd : isNumeralChar d = false)
    (hd' : isNumeralChar d' = false)
    (h : (toString i).toList ++ d :: x = (toString j).toList ++ d' :: y) :
    i = j ∧ d = d' ∧ x = y := by
  obtain ⟨hij, hrest⟩ := append_cons_inj_of_run (fun _ => isNumeralChar_of_mem_toString)
    (fun _ => isNumeralChar_of_mem_toString) hd hd' h
  exact ⟨toString_injective (String.toList_inj.mp hij), hrest⟩

theorem Position.toList_text_append (p : Position) (z : List Char) :
    p.text.toList ++ z =
      (toString p.line).toList ++ '/' :: ((toString p.column).toList ++ z) := by
  simp [text]

theorem Position.text_append_cons_inj {p q : Position} (hd : isNumeralChar d = false)
    (hd' : isNumeralChar d' = false) (h : p.text.toList ++ d :: x = q.text.toList ++ d' :: y) :
    p = q ∧ d = d' ∧ x = y := by
  rw [toList_text_append, toList_text_append] at h
  obtain ⟨hline, -, hrest⟩ := toString_append_cons_inj (by decide) (by decide) h
  obtain ⟨hcolumn, hafter⟩ := toString_append_cons_inj hd hd' hrest
  obtain ⟨line, column⟩ := p
  obtain ⟨line', column'⟩ := q
  obtain rfl : line = line' := hline
  obtain rfl : column = column' := hcolumn
  exact ⟨rfl, hafter⟩

namespace Node

theorem toList_spanText_append (start stop : Position) (z : List Char) :
    (spanText start stop).toList ++ z =
      '[' :: (start.text.toList ++ ',' :: ' ' :: (stop.text.toList ++ ')' :: z)) := by
  simp [spanText]

theorem spanText_append_inj {start stop start' stop' : Position}
    (h : (spanText start stop).toList ++ x = (spanText start' stop').toList ++ y) :
    start = start' ∧ stop = stop' ∧ x = y := by
  rw [toList_spanText_append, toList_spanText_append] at h
  obtain ⟨hstart, -, hrest⟩ :=
    Position.text_append_cons_inj (by decide) (by decide) (List.cons.inj h).2
  obtain ⟨hstop, -, hrest⟩ :=
    Position.text_append_cons_inj (by decide) (by decide) (List.cons.inj hrest).2
  exact ⟨hstart, hstop, hrest⟩

/-! ### What is said of a node -/

/-- What the line of a node says of it, without the spaces in front. -/
def heading : Node → String
  | leaf token =>
    token.kind ++ ":" ++ Text.quoted token.text ++ " " ++ spanText token.start token.stop
  | branch kind start stop children =>
    kind ++ " " ++ spanText start stop ++ (if children.isEmpty then " (empty)" else "")

def alone : Node → Node
  | leaf token => leaf token
  | branch kind start stop _ => branch kind start stop []

def isKindChar (c : Char) : Bool := c.isAlphanum || c == '_'

/-- An identifier: letters, digits and underscores, of ASCII and without a digit in front. -/
def IsIdentifier (kind : String) : Prop :=
  ∃ first others, kind.toList = first :: others ∧ (first.isAlpha || first == '_') = true ∧
    ∀ c ∈ others, isKindChar c = true

theorem IsIdentifier.isKindChar {kind : String} (h : IsIdentifier kind) :
    ∀ c ∈ kind.toList, isKindChar c = true := by
  obtain ⟨first, others, hkind, hfirst, hothers⟩ := h
  rw [hkind]
  refine List.forall_mem_cons.mpr ⟨?_, hothers⟩
  simp only [Node.isKindChar, Char.isAlphanum, Bool.or_eq_true] at hfirst ⊢
  exact hfirst.imp_left .inl

theorem toList_heading_leaf (token : Token) : (leaf token).heading.toList = token.kind.toList ++
    ':' :: (Text.quotedChars token.text.toList ++
      ' ' :: ((spanText token.start token.stop).toList ++ [])) := by
  simp [heading, Text.quoted]

theorem toList_heading_branch (kind : String) (start stop : Position) (children : List Node) :
    (branch kind start stop children).heading.toList = kind.toList ++
      ' ' :: ((spanText start stop).toList ++
        (if children.isEmpty then " (empty)" else "").toList) := by
  simp [heading]

/-- After its kind a leaf goes on with a colon and a branch with a space. -/
theorem heading_leaf_ne_heading_branch {token : Token} {kind : String} {start stop : Position}
    {children : List Node} (hleaf : IsIdentifier token.kind) (hbranch : IsIdentifier kind) :
    (leaf token).heading ≠ (branch kind start stop children).heading := by
  intro h
  rw [← String.toList_inj, toList_heading_leaf, toList_heading_branch] at h
  obtain ⟨-, hmark, -⟩ := append_cons_inj_of_run hleaf.isKindChar hbranch.isKindChar
    (by decide) (by decide) h
  exact absurd hmark (by decide)

theorem alone_eq_of_heading_eq {a b : Node} (ha : IsIdentifier a.kind) (hb : IsIdentifier b.kind)
    (h : a.heading = b.heading) : a.alone = b.alone := by
  cases a with
  | leaf token =>
      cases b with
      | leaf other =>
          rw [← String.toList_inj, toList_heading_leaf, toList_heading_leaf] at h
          obtain ⟨hkind, -, hrest⟩ := append_cons_inj_of_run ha.isKindChar hb.isKindChar
            (by decide) (by decide) h
          obtain ⟨htext, hrest⟩ := Text.quotedChars_append_inj hrest
          obtain ⟨hstart, hstop, -⟩ := spanText_append_inj (List.cons.inj hrest).2
          obtain ⟨kind, start, stop, text⟩ := token
          obtain ⟨kind', start', stop', text'⟩ := other
          obtain rfl : kind = kind' := String.toList_inj.mp hkind
          obtain rfl : start = start' := hstart
          obtain rfl : stop = stop' := hstop
          obtain rfl : text = text' := String.toList_inj.mp htext
          rfl
      | branch kind start stop children => exact absurd h (heading_leaf_ne_heading_branch ha hb)
  | branch kind start stop children =>
      cases b with
      | leaf other => exact absurd h.symm (heading_leaf_ne_heading_branch hb ha)
      | branch kind' start' stop' children' =>
          rw [← String.toList_inj, toList_heading_branch, toList_heading_branch] at h
          obtain ⟨hkind, -, hrest⟩ := append_cons_inj_of_run ha.isKindChar hb.isKindChar
            (by decide) (by decide) h
          obtain ⟨hstart, hstop, -⟩ := spanText_append_inj hrest
          obtain rfl : kind = kind' := String.toList_inj.mp hkind
          rw [alone, alone, hstart, hstop]

/-! ### All nodes of a tree -/

mutual

/-- The nodes of a tree with their depths, parents first and children from left to right. -/
def preorder (depth : Nat) : Node → List (Nat × Node)
  | leaf token => [(depth, leaf token)]
  | branch kind start stop children =>
    (depth, branch kind start stop children) :: preorderAll (depth + 1) children

def preorderAll (depth : Nat) : List Node → List (Nat × Node)
  | [] => []
  | node :: rest => preorder depth node ++ preorderAll depth rest

end

def line (entry : Nat × Node) : String := padding (2 * entry.1) ++ entry.2.heading

mutual

theorem linesFrom_eq_map (depth : Nat) :
    (node : Node) → node.linesFrom (2 * depth) = (node.preorder depth).map line
  | leaf token => by simp [linesFrom, preorder, line, heading, String.append_assoc]
  | branch kind start stop children => by
      rw [linesFrom, preorder, List.map_cons, ← linesOfAll_eq_map (depth + 1) children]
      simp [line, heading, String.append_assoc, Nat.mul_add]

theorem linesOfAll_eq_map (depth : Nat) :
    (nodes : List Node) → linesOfAll (2 * depth) nodes = (preorderAll depth nodes).map line
  | [] => rfl
  | node :: rest => by
      rw [linesOfAll, preorderAll, List.map_append, linesFrom_eq_map depth node,
        linesOfAll_eq_map depth rest]

end

theorem lines_eq_map (node : Node) : node.lines = (node.preorder 0).map line :=
  linesFrom_eq_map 0 node

/-- What the line of a node shows: its depth, and the node without what is below it. -/
def shown (entry : Nat × Node) : Nat × Node := (entry.1, entry.2.alone)

theorem map_shown_preorder (depth : Nat) (node : Node) : (node.preorder depth).map shown =
    (depth, node.alone) :: (preorderAll (depth + 1) node.children).map shown := by
  cases node <;> simp [preorder, preorderAll, shown, children]

theorem head?_preorderAll_cons (depth : Nat) (node : Node) (rest : List Node)
    (s : List (Nat × Node)) :
    ((preorderAll depth (node :: rest)).map shown ++ s).head? = some (depth, node.alone) := by
  rw [preorderAll, List.map_append, map_shown_preorder]
  rfl

/-- Siblings are not deeper than each other, and what follows them is less deep. -/
theorem le_of_head?_preorderAll {depth : Nat} {nodes : List Node} {s : List (Nat × Node)}
    (hs : ∀ entry ∈ s.head?, entry.1 < depth) :
    ∀ entry ∈ ((preorderAll depth nodes).map shown ++ s).head?, entry.1 ≤ depth := by
  cases nodes with
  | nil => exact fun entry h => Nat.le_of_lt (hs entry h)
  | cons node rest =>
      rw [head?_preorderAll_cons]
      rintro entry ⟨⟩
      exact Nat.le_refl depth

mutual

theorem preorder_append_inj {depth : Nat} {s t : List (Nat × Node)} :
    (a b : Node) → (∀ entry ∈ s.head?, entry.1 ≤ depth) → (∀ entry ∈ t.head?, entry.1 ≤ depth) →
    (a.preorder depth).map shown ++ s = (b.preorder depth).map shown ++ t → a = b ∧ s = t
  | leaf token, leaf other, _, _, h => by
      simpa [preorder, shown, alone] using h
  | leaf token, branch kind start stop children, _, _, h => by
      simp [preorder, shown, alone] at h
  | branch kind start stop children, leaf token, _, _, h => by
      simp [preorder, shown, alone] at h
  | branch kind start stop children, branch kind' start' stop' children', hs, ht, h => by
      rw [preorder, preorder, List.map_cons, List.map_cons, List.cons_append, List.cons_append] at h
      obtain ⟨hnode, hbelow⟩ := List.cons.inj h
      obtain ⟨rfl, hrest⟩ := preorderAll_append_inj children children'
        (fun entry hentry => Nat.lt_succ_of_le (hs entry hentry))
        (fun entry hentry => Nat.lt_succ_of_le (ht entry hentry)) hbelow
      simp only [shown, alone, Prod.mk.injEq, branch.injEq, true_and, and_true] at hnode
      obtain ⟨rfl, rfl, rfl⟩ := hnode
      exact ⟨rfl, hrest⟩

theorem preorderAll_append_inj {depth : Nat} {s t : List (Nat × Node)} :
    (as bs : List Node) → (∀ entry ∈ s.head?, entry.1 < depth) →
    (∀ entry ∈ t.head?, entry.1 < depth) →
    (preorderAll depth as).map shown ++ s = (preorderAll depth bs).map shown ++ t →
    as = bs ∧ s = t
  | [], [], _, _, h => ⟨rfl, h⟩
  | [], b :: bs, hs, _, h => by
      have hhead : (depth, b.alone) ∈ s.head? :=
        (congrArg List.head? h).trans (head?_preorderAll_cons depth b bs t)
      exact absurd (hs _ hhead) (Nat.lt_irrefl depth)
  | a :: as, [], _, ht, h => by
      have hhead : (depth, a.alone) ∈ t.head? :=
        (congrArg List.head? h).symm.trans (head?_preorderAll_cons depth a as s)
      exact absurd (ht _ hhead) (Nat.lt_irrefl depth)
  | a :: as, b :: bs, hs, ht, h => by
      rw [preorderAll, preorderAll, List.map_append, List.map_append, List.append_assoc,
        List.append_assoc] at h
      obtain ⟨rfl, hothers⟩ := preorder_append_inj a b (le_of_head?_preorderAll hs)
        (le_of_head?_preorderAll ht) h
      obtain ⟨rfl, hrest⟩ := preorderAll_append_inj as bs hs ht hothers
      exact ⟨rfl, hrest⟩

end

/-- Nodes with their depths, parents first, make up one tree only. -/
theorem eq_of_map_shown_eq {a b : Node}
    (h : (a.preorder 0).map shown = (b.preorder 0).map shown) : a = b := by
  have hnil : (a.preorder 0).map shown ++ [] = (b.preorder 0).map shown ++ [] := by rw [h]
  exact (preorder_append_inj a b (by simp) (by simp) hnil).1

/-! ### Printed trees -/

inductive Identified : Node → Prop
  | leaf (token : Token) (h : IsIdentifier token.kind) : Identified (.leaf token)
  | branch {kind : String} (start stop : Position) {children : List Node} (h : IsIdentifier kind)
      (hall : ∀ child ∈ children, Identified child) : Identified (.branch kind start stop children)

mutual

theorem isIdentifier_of_mem_preorder {depth : Nat} {entry : Nat × Node} :
    (node : Node) → node.Identified → entry ∈ node.preorder depth → IsIdentifier entry.2.kind
  | .leaf token, .leaf _ h, hentry => by
      rw [preorder, List.mem_singleton] at hentry
      exact hentry ▸ h
  | .branch kind start stop children, .branch _ _ h hall, hentry => by
      rw [preorder, List.mem_cons] at hentry
      rcases hentry with rfl | hentry
      · exact h
      · exact isIdentifier_of_mem_preorderAll children hall hentry

theorem isIdentifier_of_mem_preorderAll {depth : Nat} {entry : Nat × Node} :
    (nodes : List Node) → (∀ node ∈ nodes, node.Identified) → entry ∈ preorderAll depth nodes →
    IsIdentifier entry.2.kind
  | [], _, hentry => absurd hentry List.not_mem_nil
  | node :: rest, hall, hentry => by
      obtain ⟨hnode, hrest⟩ := List.forall_mem_cons.mp hall
      rw [preorderAll, List.mem_append] at hentry
      rcases hentry with hentry | hentry
      · exact isIdentifier_of_mem_preorder node hnode hentry
      · exact isIdentifier_of_mem_preorderAll rest hrest hentry

end

theorem toList_line (entry : Nat × Node) :
    (line entry).toList = List.replicate (2 * entry.1) ' ' ++ entry.2.heading.toList := by
  simp [line, padding]

theorem exists_toList_heading_eq_cons {node : Node} (h : IsIdentifier node.kind) :
    ∃ first others, node.heading.toList = first :: others ∧ first ≠ ' ' := by
  obtain ⟨first, others, hkind, hfirst, -⟩ := h
  have hne : first ≠ ' ' := by
    rintro rfl
    contradiction
  cases node with
  | leaf token =>
      rw [toList_heading_leaf, show token.kind.toList = first :: others from hkind]
      exact ⟨first, _, rfl, hne⟩
  | branch kind start stop children =>
      rw [toList_heading_branch, show kind.toList = first :: others from hkind]
      exact ⟨first, _, rfl, hne⟩

/-- A line can be read back. -/
theorem shown_eq_of_line_eq {e f : Nat × Node} (he : IsIdentifier e.2.kind)
    (hf : IsIdentifier f.2.kind) (h : line e = line f) : shown e = shown f := by
  obtain ⟨first, others, hfirst, hne⟩ := exists_toList_heading_eq_cons he
  obtain ⟨first', others', hfirst', hne'⟩ := exists_toList_heading_eq_cons hf
  have hspace {k : Nat} : ∀ c ∈ List.replicate k ' ', (c == ' ') = true := by simp
  rw [← String.toList_inj, toList_line, toList_line, hfirst, hfirst'] at h
  obtain ⟨hpadding, hsame, hrest⟩ := append_cons_inj_of_run hspace hspace (by simpa using hne)
    (by simpa using hne') h
  have hdepth : e.1 = f.1 := by
    have hlength := congrArg List.length hpadding
    rw [List.length_replicate, List.length_replicate] at hlength
    omega
  have hheading : e.2.heading = f.2.heading := by
    rw [← String.toList_inj, hfirst, hfirst', hsame, hrest]
  rw [shown, shown, hdepth, alone_eq_of_heading_eq he hf hheading]

theorem newline_not_mem_repr (i : Int) : '\n' ∉ i.repr.toList := fun h =>
  absurd (isNumeralChar_of_mem_toString (Int.toString_eq_repr ▸ h)) (by decide)

theorem newline_not_mem_spanText (start stop : Position) :
    '\n' ∉ (spanText start stop).toList := by
  simp [spanText, Position.text, newline_not_mem_repr]

theorem newline_not_mem_line {entry : Nat × Node} (h : IsIdentifier entry.2.kind) :
    '\n' ∉ (line entry).toList := by
  have hkind : '\n' ∉ entry.2.kind.toList := fun hmem =>
    absurd (h.isKindChar _ hmem) (by decide)
  obtain ⟨depth, node⟩ := entry
  rw [toList_line]
  cases node with
  | leaf token =>
      have hkind : '\n' ∉ token.kind.toList := hkind
      simp [toList_heading_leaf, hkind, newline_not_mem_spanText, Text.newline_not_mem_quotedChars]
  | branch kind start stop children =>
      have hkind : '\n' ∉ kind.toList := hkind
      have hempty : '\n' ∉ (if children = [] then " (empty)" else "").toList := by
        split <;> decide
      simp [toList_heading_branch, hkind, newline_not_mem_spanText, hempty]

theorem map_shown_eq_of_map_line_eq {s t : List (Nat × Node)}
    (hs : ∀ entry ∈ s, IsIdentifier entry.2.kind) (ht : ∀ entry ∈ t, IsIdentifier entry.2.kind)
    (h : s.map line = t.map line) : s.map shown = t.map shown := by
  induction s generalizing t with
  | nil =>
      obtain rfl := List.map_eq_nil_iff.mp h.symm
      rfl
  | cons entry rest ih =>
      obtain ⟨other, others, rfl, hline, hrest⟩ := List.map_eq_cons_iff.mp h.symm
      obtain ⟨hentry, hs⟩ := List.forall_mem_cons.mp hs
      obtain ⟨hother, ht⟩ := List.forall_mem_cons.mp ht
      rw [List.map_cons, List.map_cons, shown_eq_of_line_eq hentry hother hline.symm,
        ih hs ht hrest.symm]

theorem newline_not_mem_lines {node : Node} (h : node.Identified) :
    ∀ text ∈ node.lines, '\n' ∉ text.toList := by
  rw [lines_eq_map]
  intro text htext
  obtain ⟨entry, hentry, rfl⟩ := List.mem_map.mp htext
  exact newline_not_mem_line (isIdentifier_of_mem_preorder node h hentry)

/-- The lines can be told from each other in the printed text. -/
theorem splitOn_toList_format {node : Node} (h : node.Identified) :
    node.format.toList.splitOn '\n' = node.lines.map String.toList := by
  have hnewline : "\n".toList = ['\n'] := by decide
  rw [format, String.toList_intercalate, hnewline]
  refine List.splitOn_intercalate _ (by simpa using newline_not_mem_lines h) ?_
  rw [lines_eq_map]
  cases node <;> simp [preorder]

theorem eq_of_format_eq {a b : Node} (ha : a.Identified) (hb : b.Identified)
    (h : a.format = b.format) : a = b := by
  have hsplit : a.lines.map String.toList = b.lines.map String.toList := by
    rw [← splitOn_toList_format ha, h, splitOn_toList_format hb]
  have hlines : a.lines = b.lines :=
    List.map_injective_iff.mpr (fun _ _ => String.toList_inj.mp) hsplit
  rw [lines_eq_map, lines_eq_map] at hlines
  have hidentified {node : Node} (h : node.Identified) :
      ∀ entry ∈ node.preorder 0, IsIdentifier entry.2.kind :=
    fun _ => isIdentifier_of_mem_preorder node h
  exact eq_of_map_shown_eq
    (map_shown_eq_of_map_line_eq (hidentified ha) (hidentified hb) hlines)

/-- **The printed tree determines the tree.** Two trees whose kinds are identifiers are the same if
they are printed alike, whatever the texts and positions of their tokens are. Each node is printed
on a line of its own, parents first: after twice as many spaces as the node is deep stands what is
said of it, which does not begin with a space, and no line breaks. -/
theorem format_exact {a b : Node} (ha : a.Identified) (hb : b.Identified) :
    (a.format = b.format → a = b) ∧
    a.lines = (a.preorder 0).map (fun entry => padding (2 * entry.1) ++ entry.2.heading) ∧
    (∀ entry ∈ a.preorder 0, entry.2.heading.toList.head? ≠ some ' ') ∧
    ∀ text ∈ a.lines, '\n' ∉ text.toList := by
  refine ⟨eq_of_format_eq ha hb, lines_eq_map a, fun entry hentry => ?_, newline_not_mem_lines ha⟩
  obtain ⟨first, others, hfirst, hne⟩ :=
    exists_toList_heading_eq_cons (isIdentifier_of_mem_preorder a ha hentry)
  rw [hfirst]
  exact fun h => hne (Option.some.inj h)

/-- Two texts that differ in one quote, in a tree with an empty node and with positions before the
beginning. They do not stand between the same quotes. -/
theorem format_exact_quotes :
    let tree (text : String) : Node := branch "SUM" ⟨-1, 0⟩ ⟨2, 3⟩
      [leaf ⟨"WORD", ⟨-1, 0⟩, ⟨2, 3⟩, text⟩, branch "_tail0" ⟨2, 3⟩ ⟨2, 3⟩ []]
    let a := tree "'\\\n'"
    let b := tree "'\\\n\""
    a.Identified ∧ b.Identified ∧ a.format ≠ b.format ∧
    a.lines = ["SUM [-1/0, 2/3)", "  WORD:\"'\\\\\\n'\" [-1/0, 2/3)",
      "  _tail0 [2/3, 2/3) (empty)"] ∧
    ∀ text ∈ a.lines, '\n' ∉ text.toList := by
  intro tree a b
  have hsum : IsIdentifier "SUM" :=
    ⟨'S', ['U', 'M'], by decide, rfl, by simp [isKindChar]⟩
  have hword : IsIdentifier "WORD" :=
    ⟨'W', ['O', 'R', 'D'], by decide, rfl, by simp [isKindChar]⟩
  have htail : IsIdentifier "_tail0" :=
    ⟨'_', ['t', 'a', 'i', 'l', '0'], by decide, rfl, by simp [isKindChar]⟩
  have htree (text : String) : (tree text).Identified := by
    refine .branch _ _ hsum ?_
    rw [List.forall_mem_cons, List.forall_mem_singleton]
    exact ⟨.leaf _ hword, .branch _ _ htail nofun⟩
  obtain ⟨hdetermined, -, -, hlines⟩ := format_exact (htree "'\\\n'") (htree "'\\\n\"")
  have hne : a ≠ b := by decide
  exact ⟨htree _, htree _, fun h => hne (hdetermined h), by decide +kernel, hlines⟩

end Node

end Lookahead
