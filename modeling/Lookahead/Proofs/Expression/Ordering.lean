import Lookahead.Proofs.Expression.Comments
import Lookahead.Proofs.Expression.Grammar
import Lookahead.Proofs.Parser.Ordering

/-!
The comment filter keeps a stream in order. It passes on tokens that were not in the stream: runs of
numbers fused into one, and the texts of documentation comments, with spans put together from those
of other tokens. And it passes a number on late, when the token after it has come.

What the filter still remembers of a number or of a documentation comment is a token that it is
going to pass on (`Comments.pending`). What has been passed on, together with that, stands between
the beginning of the stream and the last token that was met; every step leaves it so
(`between_step`), whichever of the two the filter is about to pass on.
-/

namespace Lookahead.Expression

/-- Tokens one after the other between two places. -/
def Between : Position → List Token → Position → Prop
  | place, [], now => place ≤ now
  | place, t :: rest, now => place ≤ t.start ∧ t.start ≤ t.stop ∧ Between t.stop rest now

variable {place now : Position} {t : Token} {tokens rest first second : List Token} {mode : Mode}

@[simp] theorem between_nil : Between place [] now ↔ place ≤ now := Iff.rfl

@[simp] theorem between_cons :
    Between place (t :: rest) now ↔
      place ≤ t.start ∧ t.start ≤ t.stop ∧ Between t.stop rest now :=
  Iff.rfl

theorem Between.le (h : Between place tokens now) : place ≤ now := by
  induction tokens generalizing place with
  | nil => exact h
  | cons t rest ih => exact Position.le_trans h.1 (Position.le_trans h.2.1 (ih h.2.2))

theorem Between.of_le {place' : Position} (hle : place ≤ place') (h : Between place' tokens now) :
    Between place tokens now := by
  cases tokens with
  | nil => exact Position.le_trans hle h
  | cons t rest => exact ⟨Position.le_trans hle h.1, h.2⟩

theorem between_append :
    Between place (first ++ second) now ↔
      ∃ middle, Between place first middle ∧ Between middle second now := by
  induction first generalizing place with
  | nil =>
      constructor
      · exact fun h => ⟨place, Position.le_refl _, h⟩
      · rintro ⟨middle, hle, h⟩
        exact h.of_le hle
  | cons t rest ih => simp [ih, and_assoc]

theorem Between.inOrder (h : Between place tokens now) : InOrder tokens := by
  induction tokens generalizing place with
  | nil => exact ⟨by simp, .nil⟩
  | cons t rest ih =>
      obtain ⟨-, hspan, hrest⟩ := h
      obtain ⟨hspans, hchain⟩ := ih hrest
      refine ⟨List.forall_mem_cons.mpr ⟨hspan, hspans⟩, List.isChain_cons.mpr ⟨?_, hchain⟩⟩
      intro other hother
      obtain ⟨others, rfl⟩ := List.head?_eq_some_iff.mp hother
      exact hrest.1

theorem exists_between_of_inOrder (h : InOrder (t :: rest)) :
    ∃ now, Between t.start (t :: rest) now := by
  obtain ⟨hspan, hchain⟩ := h
  induction rest generalizing t with
  | nil => exact ⟨t.stop, Position.le_refl _, hspan t (by simp), Position.le_refl _⟩
  | cons u rest ih =>
      obtain ⟨ht, hrest⟩ := List.forall_mem_cons.mp hspan
      obtain ⟨hnext, hchain⟩ := List.isChain_cons_cons.mp hchain
      obtain ⟨now, hnow⟩ := ih hrest hchain
      exact ⟨now, Position.le_refl _, ht, hnow.of_le hnext⟩

/-! ### Steps -/

/-- What is remembered of tokens that have not been passed on: a number that is held back, or the
place of the text of a documentation comment. -/
def Comments.pending (s : Comments) : List Token :=
  match s.held, s.mode with
  | some held, _ => [held]
  | none, .doc start texts => [⟨"DOC_COMMENT", start, start, String.join texts.reverse⟩]
  | none, _ => []

theorem between_inCode (hplace : place ≤ t.start) (hspan : t.start ≤ t.stop) :
    Between place ((Comments.inCode t).2 ++ (Comments.inCode t).1.pending) t.stop := by
  have hskipped : Between place [] t.stop := Position.le_trans hplace hspan
  have hkept : Between place [t] t.stop := ⟨hplace, hspan, Position.le_refl _⟩
  unfold Comments.inCode
  split
  · exact hkept
  split
  -- the text of a documentation comment starts where its opening token stops
  · exact ⟨hskipped, Position.le_refl _, Position.le_refl _⟩
  split
  · exact hskipped
  split
  · exact hskipped
  split
  · exact hskipped
  · exact hkept

theorem between_pass (h : Between place (Comments.pending { mode }) now) (hstart : now ≤ t.start)
    (hspan : t.start ≤ t.stop) :
    Between place ((Comments.pass mode t).2 ++ (Comments.pass mode t).1.pending) t.stop := by
  have hplace : place ≤ t.start := Position.le_trans h.le hstart
  have hskipped : Between place [] t.stop := Position.le_trans hplace hspan
  unfold Comments.pass
  split
  · exact ⟨hplace, hspan, Position.le_refl _⟩
  · cases mode with
    | code => exact between_inCode hplace hspan
    | line | block =>
        dsimp only
        split <;> exact hskipped
    | doc start texts =>
        obtain ⟨hbefore, -, hnow⟩ := h
        have hinside : start ≤ t.start := Position.le_trans hnow hstart
        dsimp only
        split
        · exact ⟨hbefore, hinside, hspan⟩
        · exact ⟨hbefore, Position.le_refl _, Position.le_trans hinside hspan⟩

theorem between_step {s : Comments} (hs : s.Tidy) (h : Between place s.pending now)
    (hstart : now ≤ t.start) (hspan : t.start ≤ t.stop) :
    Between place ((s.step t).2 ++ (s.step t).1.pending) t.stop := by
  obtain ⟨mode, held⟩ := s
  cases held with
  | none => exact between_pass h hstart hspan
  | some held =>
      obtain rfl : mode = .code := hs (by simp)
      obtain ⟨hheld, hspan', hnow⟩ := h
      have hnext : held.stop ≤ t.start := Position.le_trans hnow hstart
      have hfused : Between place [fuse held t] t.stop :=
        ⟨hheld, Position.le_trans (Position.le_trans hspan' hnext) hspan, Position.le_refl _⟩
      unfold Comments.step
      dsimp only
      split
      · exact hfused
      · split
        · exact hfused
        · have hbehind : Between held.stop (Comments.pending { mode := .code }) now := hnow
          exact ⟨hheld, hspan', between_pass hbehind hstart hspan⟩

/-! ### Whole streams -/

/-- What is passed on, and then what is still remembered, stands where the stream stands. -/
theorem between_output {s : Comments} {last : Position} (hs : s.Tidy)
    (h : Between place s.pending now) (htokens : Between now tokens last) :
    Between place (s.output tokens ++ (s.after tokens).pending) last := by
  induction tokens generalizing s place now with
  | nil =>
      have hlast := between_append.mpr ⟨now, h, htokens⟩
      rwa [List.append_nil] at hlast
  | cons t rest ih =>
      obtain ⟨hstart, hspan, hrest⟩ := htokens
      obtain ⟨middle, hpassed, hpending⟩ := between_append.mp (between_step hs h hstart hspan)
      rw [output_cons, after_cons, List.append_assoc]
      exact between_append.mpr ⟨middle, hpassed, ih (hs.step t) hpending hrest⟩

theorem inOrder_run (h : InOrder tokens) : InOrder (comments.run tokens) := by
  cases tokens with
  | nil => exact h
  | cons t rest =>
      obtain ⟨last, hbetween⟩ := exists_between_of_inOrder h
      have houtput := between_output (s := {}) (fun h => absurd rfl h) (Position.le_refl _) hbetween
      obtain ⟨middle, hpassed, -⟩ := between_append.mp houtput
      exact hpassed.inOrder

/-- **Spans stay in order.** Of a stream in order the comment filter passes on a stream in order,
whatever it is in the middle of at the end. A parser that is given a stream in order holds nothing
but nodes that are in order, however deep: no node stops before it starts, children stand one after
the other, and each of them lies within its parent. That holds for every grammar without hidden left
recursion, for every root, and after every token, as the stream may end there. -/
theorem inOrder_run_and_ordered_held (h : InOrder tokens) :
    InOrder (comments.run tokens) ∧
    ∀ (terminals : List Terminal) (nonterminals : List String) (c : Catalog)
      (productions : Productions) (g : Grammar) (root : String) (p : Parser),
      Catalog.build terminals nonterminals = .ok c → Grammar.build c productions = .ok g →
      g.NoHiddenLeftRecursion → g.parser root = .ok p →
      ∀ node ∈ (p.acceptAll g tokens).held, node.Ordered := by
  refine ⟨inOrder_run h, fun terminals nonterminals c productions g root p hc hg hr hp => ?_⟩
  have hwf := Grammar.wellFormed_of_build (Catalog.build_eq_ok_iff.mp hc).2.2 hg
  obtain rfl := Grammar.eq_start_of_parser hp
  exact Parser.ordered_of_inOrder hwf hr h

/-- A number with a comment behind it, and the end of the input on the next line. The tree reaches
up to there, as the empty tails do that it ends with. -/
theorem inOrder_run_and_ordered_held_number :
    let number := Token.mk "NUMBER" ⟨1, 1⟩ ⟨1, 2⟩ "1"
    let last := Token.mk "EPSILON" ⟨2, 1⟩ ⟨2, 1⟩ ""
    let tokens := [number, Token.mk "DOC_COMMENT_OPEN" ⟨1, 3⟩ ⟨1, 6⟩ "/**",
      Token.mk "IDENTIFIER" ⟨1, 6⟩ ⟨1, 7⟩ "x", Token.mk "COMMENT_CLOSE" ⟨1, 7⟩ ⟨1, 9⟩ "*/",
      Token.mk "NEWLINE" ⟨1, 9⟩ ⟨2, 1⟩ "\n", last]
    InOrder tokens ∧
    comments.run tokens = [number, ⟨"DOC_COMMENT", ⟨1, 6⟩, ⟨1, 7⟩, "x"⟩, last] ∧
    InOrder (comments.run tokens) ∧ InOrder [number, last] ∧
    ∃ tree, ((Parser.start "EXPR").acceptAll grammar [number, last]).held = [tree] ∧
      tree.stop = ⟨2, 1⟩ ∧ tree.Ordered := by
  intro number last tokens
  have htokens : InOrder tokens := ⟨by decide, by decide⟩
  have hkept : InOrder [number, last] := ⟨by decide, by decide⟩
  have hrun : comments.run tokens = [number, ⟨"DOC_COMMENT", ⟨1, 6⟩, ⟨1, 7⟩, "x"⟩, last] := by
    decide
  have hheld : ((Parser.start "EXPR").acceptAll grammar [number, last]).held.map Node.stop =
      [⟨2, 1⟩] := by decide +kernel
  obtain ⟨tree, htree, hstop⟩ := List.map_eq_singleton_iff.mp hheld
  have hmem : tree ∈ ((Parser.start "EXPR").acceptAll grammar [number, last]).held := by
    rw [htree]
    exact List.mem_singleton_self tree
  have hordered := (inOrder_run_and_ordered_held hkept).2 _ _ _ _ _ "EXPR" _ build_catalog
    build_grammar noHiddenLeftRecursion_grammar rfl tree hmem
  exact ⟨htokens, hrun, (inOrder_run_and_ordered_held htokens).1, hkept, tree, htree, hstop,
    hordered⟩

end Lookahead.Expression
