import Lookahead.Expression.Comment
import Mathlib.Data.List.Induction
import Mathlib.Data.List.TakeWhile

/-!
What the comment filter leaves of a stream. The filter meets one token at a time and remembers where
it is; `stripped` says the same of the stream as a whole, without modes and without anything held
back. A comment is what is up to the first token that can end it, a number is taken together with
all that runs into it, and white space is left out. `run_comments` says that the two agree on every
stream in which the end of the input comes last and only there.

The proof goes along the stream as `stripped` cuts it. For each kind of cut there is a lemma that
takes the filter over it: over the inside of a comment (`output_inside`) and over a run of numbers
(`output_number`).
-/

namespace Lookahead.Expression

/-! ### The stream without comments -/

def closing? (kind : String) : Option String :=
  if kind = "DOC_COMMENT_OPEN" ∨ kind = "COMMENT_OPEN" then some "COMMENT_CLOSE"
  else if kind = "COMMENT" then some "NEWLINE"
  else none

/-- What is left of a comment: of a documentation comment its text, of any other nothing. -/
def remains (opener : Token) (inside : List Token) (closer : Token) : List Token :=
  if opener.kind = "DOC_COMMENT_OPEN" then
    [⟨"DOC_COMMENT", opener.stop, closer.start, String.join (inside.map (·.text))⟩]
  else []

/-- What runs into a number: all the numbers that follow directly, and a name directly after them.
-/
def numberTail (rest : List Token) : List Token :=
  rest.takeWhile (·.kind = "NUMBER") ++
    ((rest.dropWhile (·.kind = "NUMBER")).take 1).filter (·.kind = "IDENTIFIER")

/-- A number with what runs into it, as one unmatched token; or the number, if nothing does. -/
def fused (first : Token) (others : List Token) : Token :=
  match others.getLast? with
  | none => first
  | some last =>
    ⟨"UNMATCHED", first.start, last.stop, String.join ((first :: others).map (·.text))⟩

/-- The stream without comments and white space. -/
def stripped : List Token → List Token
  | [] => []
  | t :: rest =>
    if t.kind = "NUMBER" then
      fused t (numberTail rest) :: stripped (rest.drop (numberTail rest).length)
    else
      match closing? t.kind with
      | some closing =>
        match _h : rest.dropWhile (·.kind ≠ closing) with
        | [] => []
        | closer :: after => remains t (rest.takeWhile (·.kind ≠ closing)) closer ++ stripped after
      | none =>
        if t.kind = "WHITESPACE" ∨ t.kind = "NEWLINE" then stripped rest else t :: stripped rest
termination_by tokens => tokens.length
decreasing_by
  · simp only [List.length_drop, List.length_cons]
    omega
  · have hle : (rest.dropWhile (·.kind ≠ closing)).length ≤ rest.length :=
      (List.dropWhile_sublist _).length_le
    rw [_h, List.length_cons] at hle
    rw [List.length_cons]
    omega
  · exact Nat.lt_succ_self _
  · exact Nat.lt_succ_self _

/-! ### Inside a comment -/

namespace Mode

def opened (opener : Token) : Mode :=
  if opener.kind = "DOC_COMMENT_OPEN" then doc opener.stop []
  else if opener.kind = "COMMENT_OPEN" then block
  else line

def closer : Mode → String
  | line => "NEWLINE"
  | _ => "COMMENT_CLOSE"

def after (inside : List Token) : Mode → Mode
  | doc start texts => doc start ((inside.map (·.text)).reverse ++ texts)
  | mode => mode

def passedOn (closer : Token) : Mode → List Token
  | doc start texts => [⟨"DOC_COMMENT", start, closer.start, String.join texts.reverse⟩]
  | _ => []

theorem after_nil (mode : Mode) : mode.after [] = mode := by cases mode <;> rfl

theorem after_cons (t : Token) (inside : List Token) (mode : Mode) :
    mode.after (t :: inside) = (mode.after [t]).after inside := by
  cases mode <;> simp [after]

theorem closer_after (inside : List Token) (mode : Mode) :
    (mode.after inside).closer = mode.closer := by
  cases mode <;> rfl

theorem after_ne_code {inside : List Token} {mode : Mode} (h : mode ≠ code) :
    mode.after inside ≠ code := by
  cases mode <;> simp_all [after]

theorem of_closing? {opener : Token} {closing : String} (h : closing? opener.kind = some closing) :
    opened opener ≠ code ∧ (opened opener).closer = closing ∧
      ∀ (inside : List Token) (last : Token),
        ((opened opener).after inside).passedOn last = remains opener inside last := by
  unfold closing? at h
  unfold opened remains
  split at h
  · rename_i hkind
    obtain rfl := Option.some.inj h
    by_cases hdoc : opener.kind = "DOC_COMMENT_OPEN"
    · simp [hdoc, closer, after, passedOn]
    · simp [hkind.resolve_left hdoc, closer, after, passedOn]
  · rename_i hkind
    rw [not_or] at hkind
    split at h
    · obtain rfl := Option.some.inj h
      simp [hkind, closer, after, passedOn]
    · contradiction

end Mode

variable {body inside : List Token} {last t : Token} {mode : Mode}

theorem pass_of_ne (hmode : mode ≠ .code) (ht : t.kind ≠ mode.closer ∧ t.kind ≠ "EPSILON") :
    Comments.pass mode t = ({ mode := mode.after [t] }, []) := by
  cases mode with
  | code => contradiction
  | line | block | doc => simp_all [Comments.pass, Mode.closer, Mode.after]

theorem pass_of_eq (hmode : mode ≠ .code) (ht : t.kind = mode.closer) :
    Comments.pass mode t = ({}, mode.passedOn t) := by
  cases mode with
  | code => contradiction
  | line | block | doc => simp_all [Comments.pass, Mode.closer, Mode.passedOn]

def Comments.output (s : Comments) (tokens : List Token) : List Token := comments.runFrom s tokens

def Comments.after (s : Comments) (tokens : List Token) : Comments := comments.stateAfter s tokens

@[simp] theorem output_nil (s : Comments) : s.output [] = [] := rfl

@[simp] theorem output_cons (s : Comments) (t : Token) (rest : List Token) :
    s.output (t :: rest) = (s.step t).2 ++ (s.step t).1.output rest := rfl

@[simp] theorem after_nil (s : Comments) : s.after [] = s := rfl

@[simp] theorem after_cons (s : Comments) (t : Token) (rest : List Token) :
    s.after (t :: rest) = (s.step t).1.after rest := rfl

theorem after_append (s : Comments) (first second : List Token) :
    s.after (first ++ second) = (s.after first).after second :=
  List.foldl_append

theorem output_append (s : Comments) (first second : List Token) :
    s.output (first ++ second) = s.output first ++ (s.after first).output second :=
  comments.runFrom_append s first second

/-- Inside a comment nothing is passed on, and nothing ends it. -/
theorem run_inside (hmode : mode ≠ .code)
    (hinside : ∀ t ∈ inside, t.kind ≠ mode.closer ∧ t.kind ≠ "EPSILON") :
    Comments.output { mode } inside = [] ∧
      Comments.after { mode } inside = { mode := mode.after inside } := by
  induction inside generalizing mode with
  | nil => exact ⟨rfl, by rw [Mode.after_nil, after_nil]⟩
  | cons t inside ih =>
      obtain ⟨ht, hrest⟩ := List.forall_mem_cons.mp hinside
      have hstep : Comments.step { mode } t = ({ mode := mode.after [t] }, []) :=
        pass_of_ne hmode ht
      rw [output_cons, after_cons, hstep, List.nil_append, Mode.after_cons t inside]
      apply ih (Mode.after_ne_code hmode)
      rwa [Mode.closer_after]

theorem output_inside (hmode : mode ≠ .code)
    (hinside : ∀ t ∈ inside, t.kind ≠ mode.closer ∧ t.kind ≠ "EPSILON") (rest : List Token) :
    Comments.output { mode } (inside ++ rest) =
      Comments.output { mode := mode.after inside } rest := by
  obtain ⟨houtput, hafter⟩ := run_inside hmode hinside
  rw [output_append, houtput, hafter, List.nil_append]

/-! ### A run of numbers -/

theorem fused_append (first : Token) (others : List Token) (t : Token) :
    fused first (others ++ [t]) = fuse (fused first others) t := by
  cases hlast : others.getLast? with
  | none =>
      obtain rfl := List.getLast?_eq_none_iff.mp hlast
      simp [fused, fuse]
  | some last => simp [fused, fuse, hlast, String.append_assoc]

theorem foldl_fuse (first : Token) (others : List Token) :
    others.foldl fuse first = fused first others := by
  induction others using List.reverseRecOn with
  | nil => rfl
  | append_singleton others t ih =>
      rw [List.foldl_append, ih, fused_append]
      rfl

theorem output_numbers {numbers : List Token} (h : ∀ t ∈ numbers, t.kind = "NUMBER")
    (held : Token) (rest : List Token) :
    Comments.output { held := some held } (numbers ++ rest) =
      Comments.output { held := some (numbers.foldl fuse held) } rest := by
  induction numbers generalizing held with
  | nil => rfl
  | cons t numbers ih =>
      obtain ⟨ht, hnumbers⟩ := List.forall_mem_cons.mp h
      have hstep :
          Comments.step { held := some held } t = ({ held := some (fuse held t) }, []) := by
        simp [Comments.step, ht]
      rw [List.cons_append, output_cons, hstep, List.nil_append]
      exact ih hnumbers (fuse held t)

theorem output_held (held t : Token) (ht : t.kind ≠ "NUMBER") (rest : List Token) :
    Comments.output { held := some held } (t :: rest) =
      if t.kind = "IDENTIFIER" then fuse held t :: Comments.output {} rest
      else held :: Comments.output {} (t :: rest) := by
  split
  · rename_i hname
    have hstep : Comments.step { held := some held } t = ({}, [fuse held t]) := by
      simp [Comments.step, hname]
    rw [output_cons, hstep, List.singleton_append]
  · rename_i hname
    have hstep : Comments.step { held := some held } t =
        ((Comments.step {} t).1, held :: (Comments.step {} t).2) := by
      simp [Comments.step, hname, ht]
    rw [output_cons, hstep, output_cons, List.cons_append]

/-- A number is passed on with all that runs into it, and the stream goes on after that. -/
theorem output_number (hlast : last.kind = "EPSILON") (held : Token) (rest : List Token) :
    Comments.output { held := some held } (rest ++ [last]) =
      fused held (numberTail rest) ::
        Comments.output {} (rest.drop (numberTail rest).length ++ [last]) := by
  have hnumbers : ∀ t ∈ rest.takeWhile (·.kind = "NUMBER"), t.kind = "NUMBER" := by
    intro t ht
    simpa using List.mem_takeWhile_imp ht
  have hsplit : rest = rest.takeWhile (·.kind = "NUMBER") ++ rest.dropWhile (·.kind = "NUMBER") :=
    List.takeWhile_append_dropWhile.symm
  unfold numberTail
  generalize rest.takeWhile (·.kind = "NUMBER") = numbers at hnumbers hsplit
  cases hafter : rest.dropWhile (·.kind = "NUMBER") with
  | nil =>
      rw [hafter, List.append_nil] at hsplit
      subst hsplit
      rw [output_numbers hnumbers, foldl_fuse, output_held _ _ (by simp [hlast]),
        if_neg (by simp [hlast])]
      simp
  | cons t after =>
      have ht : t.kind ≠ "NUMBER" := by
        have hhead := List.head?_dropWhile_not (·.kind = "NUMBER") rest
        simpa [hafter] using hhead
      rw [hafter] at hsplit
      subst hsplit
      rw [List.append_assoc, output_numbers hnumbers, foldl_fuse, List.cons_append,
        output_held _ _ ht]
      by_cases hname : t.kind = "IDENTIFIER"
      · simp [hname, fused_append]
      · simp [hname]

/-! ### Whole streams -/

theorem step_opener {closing : String} (h : closing? t.kind = some closing) :
    Comments.step {} t = ({ mode := .opened t }, []) := by
  unfold closing? at h
  split at h
  · rename_i hkind
    rcases hkind with hkind | hkind <;>
      simp [Comments.step, Comments.pass, Comments.inCode, Mode.opened, hkind]
  · split at h
    · rename_i hkind
      simp [Comments.step, Comments.pass, Comments.inCode, Mode.opened, hkind]
    · contradiction

/-- A comment is passed over as a whole, up to the first token that can end it. -/
theorem run_comment {closing : String} {closer : Token} (hopener : closing? t.kind = some closing)
    (hinside : ∀ u ∈ inside, u.kind ≠ closing ∧ u.kind ≠ "EPSILON")
    (hcloser : closer.kind = closing) :
    Comments.output {} (t :: (inside ++ [closer])) = remains t inside closer ∧
      Comments.after {} (t :: (inside ++ [closer])) = {} := by
  obtain ⟨hmode, hcloses, hpassed⟩ := Mode.of_closing? hopener
  obtain ⟨houtput, hafter⟩ := run_inside hmode (by rwa [hcloses])
  have hstep : Comments.step { mode := (Mode.opened t).after inside } closer =
      ({}, remains t inside closer) := by
    rw [← hpassed inside closer]
    refine pass_of_eq (Mode.after_ne_code hmode) ?_
    rw [Mode.closer_after, hcloses, hcloser]
  rw [output_cons, after_cons, step_opener hopener, List.nil_append, output_append, after_append,
    houtput, hafter, output_cons, after_cons, hstep]
  exact ⟨List.append_nil _, rfl⟩

theorem output_comment {closing : String} {closer : Token}
    (hopener : closing? t.kind = some closing)
    (hinside : ∀ u ∈ inside, u.kind ≠ closing ∧ u.kind ≠ "EPSILON")
    (hcloser : closer.kind = closing) (rest : List Token) :
    Comments.output {} (t :: (inside ++ closer :: rest)) =
      remains t inside closer ++ Comments.output {} rest := by
  obtain ⟨houtput, hafter⟩ := run_comment hopener hinside hcloser
  rw [List.append_cons, ← List.cons_append, output_append, houtput, hafter]

/-- A token that is no number and opens no comment is passed on, unless it is white space. -/
theorem step_other (hend : t.kind ≠ "EPSILON") (hnumber : t.kind ≠ "NUMBER")
    (h : closing? t.kind = none) :
    Comments.step {} t =
      ({}, if t.kind = "WHITESPACE" ∨ t.kind = "NEWLINE" then [] else [t]) := by
  have hkind : t.kind ≠ "DOC_COMMENT_OPEN" ∧ t.kind ≠ "COMMENT_OPEN" ∧ t.kind ≠ "COMMENT" := by
    unfold closing? at h
    split at h
    · contradiction
    · split at h
      · contradiction
      · simp_all
  simp only [Comments.step, Comments.pass, if_neg hend, Comments.inCode, if_neg hnumber,
    if_neg hkind.1, if_neg hkind.2.1, if_neg hkind.2.2]
  split <;> rfl

/-- After the end of the input the filter is as it was before the input. -/
theorem step_last (hlast : last.kind = "EPSILON") (s : Comments) : (s.step last).1 = {} := by
  obtain ⟨mode, held⟩ := s
  cases held <;> simp [Comments.step, Comments.pass, hlast]

theorem output_stripped (hlast : last.kind = "EPSILON") (hbody : ∀ t ∈ body, t.kind ≠ "EPSILON") :
    Comments.output {} (body ++ [last]) = stripped body ++ [last] := by
  fun_induction stripped body with
  | case1 => simp [Comments.step, Comments.pass, hlast]
  | case2 t rest hnumber ih =>
      have hstep : Comments.step {} t = ({ held := some t }, []) := by
        simp [Comments.step, Comments.pass, Comments.inCode, hnumber]
      rw [List.cons_append, output_cons, hstep, List.nil_append, output_number hlast,
        List.cons_append, ih]
      exact fun u hu => hbody u (List.mem_cons_of_mem _ (List.mem_of_mem_drop hu))
  | case3 t rest hnumber closing hclosing hopen =>
      -- the comment is still open when the input ends
      obtain ⟨hmode, hcloser, -⟩ := Mode.of_closing? hclosing
      have hinside : ∀ u ∈ rest, u.kind ≠ (Mode.opened t).closer ∧ u.kind ≠ "EPSILON" := by
        intro u hu
        have hne := List.dropWhile_eq_nil_iff.mp hopen u hu
        exact ⟨by simpa [hcloser] using hne, hbody u (List.mem_cons_of_mem _ hu)⟩
      rw [List.cons_append, output_cons, step_opener hclosing, List.nil_append,
        output_inside hmode hinside]
      simp [Comments.step, Comments.pass, hlast]
  | case4 t rest hnumber closing hclosing closer after hclose ih =>
      have hsplit : rest = rest.takeWhile (·.kind ≠ closing) ++ closer :: after := by
        rw [← hclose, List.takeWhile_append_dropWhile]
      have hkind : closer.kind = closing := by
        have hhead := List.head?_dropWhile_not (·.kind ≠ closing) rest
        rw [hclose] at hhead
        simpa using hhead
      have hinside : ∀ u ∈ rest.takeWhile (·.kind ≠ closing),
          u.kind ≠ closing ∧ u.kind ≠ "EPSILON" := by
        intro u hu
        have hne := List.mem_takeWhile_imp hu
        have hmem := (List.takeWhile_sublist _).subset hu
        exact ⟨by simpa using hne, hbody u (List.mem_cons_of_mem _ hmem)⟩
      generalize rest.takeWhile (·.kind ≠ closing) = inside at hsplit hinside ⊢
      subst hsplit
      rw [List.cons_append, List.append_assoc, List.cons_append,
        output_comment hclosing hinside hkind, ih, List.append_assoc]
      exact fun u hu => hbody u (by simp [hu])
  | case5 t rest hnumber hclosing hblank ih =>
      rw [List.cons_append, output_cons, step_other (hbody t (by simp)) hnumber hclosing,
        if_pos hblank]
      exact ih (fun u hu => hbody u (List.mem_cons_of_mem _ hu))
  | case6 t rest hnumber hclosing hblank ih =>
      rw [List.cons_append, output_cons, step_other (hbody t (by simp)) hnumber hclosing,
        if_neg hblank, ih (fun u hu => hbody u (List.mem_cons_of_mem _ hu))]
      rfl

theorem kind_ne_of_mem_stripped (hbody : ∀ t ∈ body, t.kind ≠ "EPSILON") :
    ∀ t ∈ stripped body, t.kind ≠ "EPSILON" := by
  fun_induction stripped body with
  | case1 => exact hbody
  | case2 t rest hnumber ih =>
      refine List.forall_mem_cons.mpr ⟨?_, ih fun u hu =>
        hbody u (List.mem_cons_of_mem _ (List.mem_of_mem_drop hu))⟩
      unfold fused
      split
      · exact hbody t (by simp)
      · simp
  | case3 => simp
  | case4 t rest hnumber closing hclosing closer after hclose ih =>
      refine List.forall_mem_append.mpr ⟨?_, ih fun u hu => ?_⟩
      · unfold remains
        split <;> simp
      · have hmem : u ∈ rest.dropWhile (·.kind ≠ closing) := hclose ▸ List.mem_cons_of_mem _ hu
        exact hbody u (List.mem_cons_of_mem _ ((List.dropWhile_sublist _).subset hmem))
  | case5 t rest hnumber hclosing hblank ih =>
      exact ih fun u hu => hbody u (List.mem_cons_of_mem _ hu)
  | case6 t rest hnumber hclosing hblank ih =>
      obtain ⟨ht, hrest⟩ := List.forall_mem_cons.mp hbody
      exact List.forall_mem_cons.mpr ⟨ht, ih hrest⟩

/-- Something is held back only outside of comments. -/
def Comments.Tidy (s : Comments) : Prop := s.held ≠ none → s.mode = .code

theorem tidy_pass (mode : Mode) (t : Token) : (Comments.pass mode t).1.Tidy := by
  unfold Comments.pass Comments.inCode Comments.Tidy
  repeat' split
  all_goals simp

theorem Comments.Tidy.step {s : Comments} (h : s.Tidy) (t : Token) : (s.step t).1.Tidy := by
  obtain ⟨mode, held⟩ := s
  cases held with
  | none => exact tidy_pass mode t
  | some held =>
      obtain rfl : mode = .code := h (by simp)
      unfold Comments.step
      dsimp only
      split
      · exact fun _ => rfl
      · split
        · exact fun _ => rfl
        · exact tidy_pass .code t

theorem Comments.Tidy.after {s : Comments} (h : s.Tidy) (tokens : List Token) :
    (s.after tokens).Tidy := by
  induction tokens generalizing s with
  | nil => exact h
  | cons t rest ih => exact ih (h.step t)

/-- **The comment filter strips a stream.** Of a stream in which the end of the input comes last and
only there, what is passed on is the stream without comments and white space, in which every number
is taken together with what runs into it, and then the end of the input, once. Afterwards the filter
is as it was before the stream, with nothing held back; and whenever it holds something back it is
outside of comments. -/
theorem run_comments (body : List Token) (last : Token)
    (hbody : ∀ t ∈ body, t.kind ≠ "EPSILON") (hlast : last.kind = "EPSILON") :
    comments.run (body ++ [last]) = stripped body ++ [last] ∧
      (∀ t ∈ stripped body, t.kind ≠ "EPSILON") ∧
      Comments.after {} (body ++ [last]) = {} ∧
      ∀ before, before <+: body ++ [last] → (Comments.after {} before).held ≠ none →
        (Comments.after {} before).mode = .code := by
  refine ⟨output_stripped hlast hbody, kind_ne_of_mem_stripped hbody, ?_, ?_⟩
  · rw [after_append, after_cons, after_nil, step_last hlast]
  · intro before _
    exact Comments.Tidy.after (fun h => absurd rfl h) before

/-- Numbers that run into each other and into a name, a documentation comment with other comments
opened inside, and a number right before a comment that never ends. -/
theorem run_comments_mixed :
    let token := fun kind text => Token.mk kind ⟨1, 1⟩ ⟨1, 2⟩ text
    let body := [token "NUMBER" "1", token "NUMBER" ".2", token "IDENTIFIER" "x",
      token "DOC_COMMENT_OPEN" "/**", token "COMMENT" "//", token "NUMBER" "3",
      token "COMMENT_CLOSE" "*/", token "NUMBER" "4", token "COMMENT_OPEN" "/*",
      token "NUMBER" "5"]
    let last := token "EPSILON" ""
    (∀ t ∈ body, t.kind ≠ "EPSILON") ∧ comments.run (body ++ [last]) = stripped body ++ [last] ∧
      stripped body = [⟨"UNMATCHED", ⟨1, 1⟩, ⟨1, 2⟩, "1.2x"⟩,
        ⟨"DOC_COMMENT", ⟨1, 2⟩, ⟨1, 1⟩, "//3"⟩, token "NUMBER" "4"] := by
  intro token body last
  have hbody : ∀ t ∈ body, t.kind ≠ "EPSILON" := by decide
  have hrun := (run_comments body last hbody rfl).1
  refine ⟨hbody, hrun, List.append_cancel_right (?_ : _ ++ [last] = _)⟩
  rw [← hrun]
  decide

end Lookahead.Expression
