import PathAccelerator.Semantics.While
import PathAccelerator.Text.Scanf

/-! The prompts of shortestPathFind.

The loops for start and dest are the same code. Each asks from -1 on until the number
it holds is an index, and the second goes on with the input that the first left.
-/

set_option autoImplicit false

namespace PathAccelerator.Host

open Semantics Text

structure Prompt where
  index : ℤ
  input : List Char
  deriving DecidableEq

/-- `index < 0 || index >= max`. -/
def outOfRange (max : ℕ) (index : ℤ) : Bool := index < 0 || index ≥ max

def Prompt.asks (max : ℕ) (p : Prompt) : Bool := outOfRange max p.index

/-- `scanf("%d",&index)`, whose result is not looked at. -/
def Prompt.scanf (store : ℤ → ℤ) (p : Prompt) : Prompt :=
  let (index, input) := scanInt store p.index p.input
  ⟨index, input⟩

/-- `while (index < 0 || index >= max)` ends. -/
def PromptEnds (store : ℤ → ℤ) (max : ℕ) (p final : Prompt) : Prop :=
  Ends (Prompt.asks max) (Prompt.scanf store) p final

theorem PromptEnds.node {store : ℤ → ℤ} {max : ℕ} {p final : Prompt}
    (ends : PromptEnds store max p final) : ∃ v : Fin max, final.index = v.val := by
  have exit : Prompt.asks max final = false := Ends.exit ends
  simp only [Prompt.asks, outOfRange, Bool.or_eq_false_iff, decide_eq_false_iff_not] at exit
  exact ⟨⟨final.index.toNat, by omega⟩, (Int.toNat_of_nonneg (by omega)).symm⟩

/-! ## Tokens -/

def index? (max : ℕ) (token : List Char) : Option ℤ :=
  (decimal? token).filter fun n => !outOfRange max n

/-- The first token that is an index, and the tokens after it. -/
def firstIndex (max : ℕ) : List (List Char) → Option (ℤ × List (List Char))
  | [] => none
  | token :: tokens =>
    match index? max token with
    | some n => some (n, tokens)
    | none => firstIndex max tokens

def badTokens (max : ℕ) (tokens : List (List Char)) : List (List Char) :=
  tokens.takeWhile fun token => (index? max token).isNone

/-- A token of signs and digits only, no number of which is stored as an index. A number
is a run of digits with the sign before it. -/
inductive Harmless (store : ℤ → ℤ) (max : ℕ) : List Char → Prop where
  | done : Harmless store max []
  | sign {c : Char} {rest : List Char} : isSign c = true → NoDigit rest →
      Harmless store max rest → Harmless store max (c :: rest)
  | integer {item rest : List Char} {n : ℤ} : decimal? item = some n → NoDigit rest →
      outOfRange max (store n) = true → Harmless store max rest → Harmless store max (item ++ rest)

section Cons

variable {max : ℕ} {token : List Char} {n : ℤ}

theorem firstIndex_cons_some (index : index? max token = some n) (tokens : List (List Char)) :
    firstIndex max (token :: tokens) = some (n, tokens) := by
  rw [firstIndex, index]

theorem firstIndex_cons_none (bad : index? max token = none) (tokens : List (List Char)) :
    firstIndex max (token :: tokens) = firstIndex max tokens := by
  rw [firstIndex, bad]

theorem badTokens_cons_some (index : index? max token = some n) (tokens : List (List Char)) :
    badTokens max (token :: tokens) = [] :=
  List.takeWhile_cons_of_neg (by simp [index])

theorem badTokens_cons_none (bad : index? max token = none) (tokens : List (List Char)) :
    badTokens max (token :: tokens) = token :: badTokens max tokens :=
  List.takeWhile_cons_of_pos (by simp [bad])

end Cons

theorem firstIndex_length {max : ℕ} {tokens after : List (List Char)} {n : ℤ}
    (first : firstIndex max tokens = some (n, after)) : after.length < tokens.length := by
  induction tokens with
  | nil => cases first
  | cons token tokens ih =>
    cases found : index? max token with
    | some m =>
      rw [firstIndex_cons_some found] at first
      obtain ⟨-, rfl⟩ := Prod.mk.inj (Option.some.inj first)
      exact Nat.lt_succ_self _
    | none =>
      rw [firstIndex_cons_none found] at first
      exact Nat.lt_succ_of_lt (ih first)

/-! ## One turn -/

section Turn

variable {store : ℤ → ℤ} {max : ℕ} {index : ℤ} {final : Prompt}

theorem scanf_of_item {c : Char} {s item rest : List Char} (letter : isspace c = false)
    (read : inputItem (c :: s) = (item, rest)) :
    Prompt.scanf store ⟨index, c :: s⟩ = ⟨(decimal? item).elim index store, rest⟩ := by
  have next : NextIs (fun c => !isspace c) (c :: s) := by
    rintro d ⟨⟩
    simp [letter]
  simp only [Prompt.scanf, scanInt_of_item next read]

theorem scanf_sign {c : Char} {rest : List Char} (letter : isspace c = false)
    (sign : isSign c = true) (ended : NoDigit rest) :
    Prompt.scanf store ⟨index, c :: rest⟩ = ⟨index, rest⟩ := by
  rw [scanf_of_item letter (inputItem_sign sign ended)]
  rcases isSign_iff.mp sign with rfl | rfl <;> rfl

theorem scanf_integer {item rest : List Char} {n : ℤ} (letters : ∀ c ∈ item, isspace c = false)
    (integer : decimal? item = some n) (ended : NoDigit rest) :
    Prompt.scanf store ⟨index, item ++ rest⟩ = ⟨store n, rest⟩ := by
  have read := inputItem_decimal (by rw [integer]; rfl) ended
  cases item with
  | nil => cases integer
  | cons c digits =>
    rw [List.cons_append] at read ⊢
    rw [scanf_of_item (letters c (List.mem_cons_self ..)) read, integer]
    rfl

theorem scanf_other {c : Char} {rest : List Char} (letter : isspace c = false)
    (sign : isSign c = false) (digit : c.isDigit = false) :
    Prompt.scanf store ⟨index, c :: rest⟩ = ⟨index, c :: rest⟩ :=
  scanf_of_item letter (inputItem_other sign digit)

theorem scanf_dropWhile (input : List Char) :
    Prompt.scanf store ⟨index, input.dropWhile isspace⟩ = Prompt.scanf store ⟨index, input⟩ := by
  simp only [Prompt.scanf, scanInt_dropWhile]

end Turn

/-! ## One token -/

section Token

variable {store : ℤ → ℤ} {max : ℕ} {index : ℤ} {final : Prompt}

theorem promptEnds_iff_of_index (inside : outOfRange max index = false) (input : List Char) :
    PromptEnds store max ⟨index, input⟩ final ↔ final = ⟨index, input⟩ :=
  ends_iff_of_exit inside

variable (out : outOfRange max index = true)

include out

theorem promptEnds_iff_of_out (input : List Char) : PromptEnds store max ⟨index, input⟩ final ↔
    PromptEnds store max (Prompt.scanf store ⟨index, input⟩) final :=
  ends_iff_of_turn out

theorem not_promptEnds_of_stuck {input : List Char}
    (stuck : Prompt.scanf store ⟨index, input⟩ = ⟨index, input⟩) :
    ¬ PromptEnds store max ⟨index, input⟩ final :=
  have more : Prompt.asks max ⟨index, input⟩ = true := out
  not_ends_of_stuck more stuck final

theorem ends_dropWhile (input : List Char) :
    PromptEnds store max ⟨index, input.dropWhile isspace⟩ final ↔
      PromptEnds store max ⟨index, input⟩ final := by
  rw [promptEnds_iff_of_out out, promptEnds_iff_of_out out, scanf_dropWhile]

variable {token rest : List Char} (letters : ∀ c ∈ token, isspace c = false)
  (ended : NextIs isspace rest)

include letters ended

theorem ends_past_harmless (harmless : Harmless store max token) :
    ∃ index', outOfRange max index' = true ∧ ∀ final,
      PromptEnds store max ⟨index, token ++ rest⟩ final ↔
        PromptEnds store max ⟨index', rest⟩ final := by
  induction harmless generalizing index with
  | done => exact ⟨index, out, fun _ => Iff.rfl⟩
  | sign sign stop _ ih =>
    rw [List.forall_mem_cons] at letters
    obtain ⟨index', out', past⟩ := ih out letters.2
    refine ⟨index', out', fun final => ?_⟩
    rw [List.cons_append, promptEnds_iff_of_out out,
      scanf_sign letters.1 sign (stop.append_space ended)]
    exact past final
  | integer integer stop outside _ ih =>
    rw [List.forall_mem_append] at letters
    obtain ⟨index', out', past⟩ := ih outside letters.2
    refine ⟨index', out', fun final => ?_⟩
    rw [List.append_assoc, promptEnds_iff_of_out out,
      scanf_integer letters.1 integer (stop.append_space ended)]
    exact past final

omit out in
theorem words_length_le : (words isspace rest).length ≤ (words isspace (token ++ rest)).length := by
  by_cases empty : token = []
  · rw [empty, List.nil_append]
  · rw [words_word empty letters ended]
    exact Nat.le_succ _

theorem harmless_of_ends (ends : PromptEnds store max ⟨index, token ++ rest⟩ final) :
    Harmless store max token ∨
      (words isspace rest).length ≤ (words isspace final.input).length := by
  induction size : token.length using Nat.strongRecOn generalizing token index with
  | ind length ih =>
    cases token with
    | nil => exact .inl .done
    | cons c s =>
      rw [promptEnds_iff_of_out out] at ends
      rcases inputItem_cases c s with ⟨sign, digit⟩ | ⟨sign, stop⟩ | ⟨item, tail, cut, integer, stop⟩
      · -- The character stays unread for ever.
        have stuck : Prompt.scanf store ⟨index, c :: (s ++ rest)⟩ = ⟨index, c :: (s ++ rest)⟩ :=
          scanf_other (letters c (List.mem_cons_self ..)) sign digit
        rw [List.cons_append, stuck] at ends
        exact absurd ends (not_promptEnds_of_stuck out stuck)
      · rw [List.forall_mem_cons] at letters
        rw [List.cons_append, scanf_sign letters.1 sign (stop.append_space ended)] at ends
        exact (ih s.length (by rw [← size]; exact Nat.lt_succ_self _) out letters.2 ends rfl).imp_left
          (.sign sign stop)
      · obtain ⟨n, value⟩ := Option.isSome_iff_exists.mp integer
        rw [cut] at letters ends size ⊢
        rw [List.forall_mem_append] at letters
        rw [List.append_assoc, scanf_integer letters.1 value (stop.append_space ended)] at ends
        cases outside : outOfRange max (store n) with
        | true =>
          have shorter : tail.length < length := by
            have nonempty : item ≠ [] := by rintro rfl; cases value
            have := List.length_pos_iff.mpr nonempty
            rw [← size, List.length_append]
            omega
          exact (ih tail.length shorter outside letters.2 ends rfl).imp_left
            (.integer value stop outside)
        | false =>
          -- The number read is accepted within the token.
          rw [promptEnds_iff_of_index outside] at ends
          rw [ends]
          exact .inr (words_length_le letters.2 ended)

end Token

/-! ## The loops -/

section Loops

variable {store : ℤ → ℤ} {max : ℕ}

theorem promptEnds_of_index (stores : ∀ n, 0 ≤ n → n < (max : ℤ) → store n = n) {held n : ℤ}
    (out : outOfRange max held = true) {token rest : List Char}
    (letters : ∀ c ∈ token, isspace c = false) (ended : NextIs isspace rest)
    (index : index? max token = some n) :
    PromptEnds store max ⟨held, token ++ rest⟩ ⟨n, rest⟩ := by
  obtain ⟨value, inside⟩ := Option.filter_eq_some_iff.mp index
  rw [Bool.not_eq_true'] at inside
  have accepted : store n = n := by
    simp only [outOfRange, Bool.or_eq_false_iff, decide_eq_false_iff_not] at inside
    exact stores n (by omega) (by omega)
  have stop : NoDigit rest := ended.imp fun c white => by simp [not_isDigit_of_isspace white]
  rw [promptEnds_iff_of_out out, scanf_integer letters value stop, accepted,
    promptEnds_iff_of_index inside]

/-- A prompt loop gets the first index of its input, and leaves the tokens after it,
exactly when the tokens before it are harmless. -/
theorem prompt_iff (stores : ∀ n, 0 ≤ n → n < (max : ℤ) → store n = n) {held : ℤ}
    (out : outOfRange max held = true) {input : List Char} {index : ℤ} {after : List (List Char)}
    (first : firstIndex max (words isspace input) = some (index, after)) :
    (∃ rest, PromptEnds store max ⟨held, input⟩ ⟨index, rest⟩ ∧ words isspace rest = after) ↔
      ∀ token ∈ badTokens max (words isspace input), Harmless store max token := by
  induction tokens : words isspace input generalizing input held with
  | nil =>
    rw [tokens] at first
    cases first
  | cons token others ih =>
    obtain ⟨rest, cut, -, letters, ended, next⟩ := exists_of_words_eq_cons tokens
    rw [tokens] at first
    simp only [← ends_dropWhile out input, cut]
    cases found : index? max token with
    | some n =>
      rw [firstIndex_cons_some found] at first
      obtain ⟨rfl, rfl⟩ := Prod.mk.inj (Option.some.inj first)
      rw [badTokens_cons_some found]
      exact iff_of_true ⟨rest, promptEnds_of_index stores out letters ended found, next⟩
        (List.forall_mem_nil _)
    | none =>
      rw [firstIndex_cons_none found, ← next] at first
      rw [badTokens_cons_none found, List.forall_mem_cons]
      by_cases harmless : Harmless store max token
      · obtain ⟨held', out', past⟩ := ends_past_harmless out letters ended harmless
        simp only [past, ih out' first next, harmless, true_and]
      · -- The loop hangs in the token, or ends before the index is reached.
        refine iff_of_false ?_ fun all => harmless all.1
        rintro ⟨left, ends, same⟩
        have fewer := firstIndex_length first
        rw [← same] at fewer
        rcases harmless_of_ends out letters ended ends with good | more
        · exact harmless good
        · exact absurd fewer (Nat.not_lt.mpr more)

end Loops

/-- The prompts for start and dest get the first indices of the input, one after the
other, exactly when all tokens before them are harmless. -/
theorem prompts_iff {store : ℤ → ℤ} {max : ℕ}
    (stores : ∀ n, 0 ≤ n → n < (max : ℤ) → store n = n) {input : List Char} {start : ℤ}
    {tokens : List (List Char)}
    (first : firstIndex max (words isspace input) = some (start, tokens)) :
    (∃ rest, PromptEnds store max ⟨-1, input⟩ ⟨start, rest⟩ ∧ words isspace rest = tokens ∧
      ∀ dest after, firstIndex max tokens = some (dest, after) →
        ∃ rest', PromptEnds store max ⟨-1, rest⟩ ⟨dest, rest'⟩ ∧ words isspace rest' = after) ↔
    (∀ token ∈ badTokens max (words isspace input), Harmless store max token) ∧
      ∀ dest after, firstIndex max tokens = some (dest, after) →
        ∀ token ∈ badTokens max tokens, Harmless store max token := by
  have unset : outOfRange max (-1) = true := rfl
  have start_iff := prompt_iff stores unset first
  constructor
  · rintro ⟨rest, ends, rfl, dests⟩
    exact ⟨start_iff.mp ⟨rest, ends, rfl⟩,
      fun dest after next => (prompt_iff stores unset next).mp (dests dest after next)⟩
  · rintro ⟨starts, dests⟩
    obtain ⟨rest, ends, rfl⟩ := start_iff.mpr starts
    exact ⟨rest, ends, rfl,
      fun dest after next => (prompt_iff stores unset next).mpr (dests dest after next)⟩

/-- Numbers out of range and lone signs are asked for again. -/
theorem prompts_session :
    let input := ['-', '3', ' ', '9', '9', ' ', '7', ' ', '+', '-', ' ', '2']
    ∃ rest, PromptEnds id 16 ⟨-1, input⟩ ⟨7, rest⟩ ∧ words isspace rest = [['+', '-'], ['2']] ∧
      ∀ dest after, firstIndex 16 [['+', '-'], ['2']] = some (dest, after) →
        ∃ rest', PromptEnds id 16 ⟨-1, rest⟩ ⟨dest, rest'⟩ ∧ words isspace rest' = after := by
  intro input
  have number (item : List Char) (n : ℤ) (value : decimal? item = some n)
      (outside : outOfRange 16 n = true) : Harmless id 16 item := by
    have ended : NoDigit [] := fun _ head => nomatch head
    simpa using Harmless.integer value ended outside .done
  have signs : Harmless id 16 ['+', '-'] :=
    .sign rfl (fun _ head => by cases head; rfl) (.sign rfl (fun _ head => nomatch head) .done)
  refine (prompts_iff (fun _ _ _ => rfl) (by decide)).mpr ⟨?_, ?_⟩
  · rw [show badTokens 16 (words isspace input) = [['-', '3'], ['9', '9']] by decide]
    exact List.forall_mem_cons.mpr ⟨number _ (-3) rfl rfl,
      List.forall_mem_cons.mpr ⟨number _ 99 rfl rfl, List.forall_mem_nil _⟩⟩
  · rintro dest after -
    rw [show badTokens 16 [['+', '-'], ['2']] = [['+', '-']] by decide]
    exact List.forall_mem_cons.mpr ⟨signs, List.forall_mem_nil _⟩

/-- A letter before the first index keeps the program at the prompt. -/
theorem prompt_hangs : firstIndex 16 (words isspace ['x', ' ', '5']) = some (5, []) ∧
    ∀ store final, ¬ PromptEnds store 16 ⟨-1, ['x', ' ', '5']⟩ final :=
  ⟨by decide, fun _ _ => not_promptEnds_of_stuck rfl (scanf_other rfl rfl rfl)⟩

end PathAccelerator.Host
