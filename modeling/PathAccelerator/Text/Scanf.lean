import Mathlib.Data.Int.Notation
import Mathlib.Data.Nat.Notation
import Mathlib.Data.List.TakeWhile

/-! Words of an input, and the conversion `%d` of scanf.

The conversion skips white space and takes the longest prefix that begins an integer.
The first character after it stays unread. When the prefix is no integer nothing is
assigned, but the prefix has been read.
-/

set_option autoImplicit false

namespace PathAccelerator.Text

section Words

variable {α : Type*}

def NextIs (kind : α → Bool) (rest : List α) : Prop := ∀ c ∈ rest.head?, kind c = true

theorem NextIs.append {kind : α → Bool} {front rest : List α} (first : NextIs kind front)
    (then_ : NextIs kind rest) : NextIs kind (front ++ rest) := by
  cases front with
  | nil => exact then_
  | cons c front => exact first

theorem NextIs.imp {kind kind' : α → Bool} {rest : List α} (next : NextIs kind rest)
    (implies : ∀ c, kind c = true → kind' c = true) : NextIs kind' rest :=
  fun c head => implies c (next c head)

theorem nextIs_dropWhile (kind : α → Bool) (s : List α) :
    NextIs (fun c => !kind c) (s.dropWhile kind) := by
  intro c head
  have stopped := List.head?_dropWhile_not kind s
  rw [Option.mem_def.mp head] at stopped
  simpa using stopped

section Stop

variable {kind : α → Bool} {front rest : List α} (ended : NextIs (fun c => !kind c) rest)

include ended

theorem takeWhile_stop : rest.takeWhile kind = [] := by
  cases rest with
  | nil => rfl
  | cons c rest => exact List.takeWhile_cons_of_neg (by simpa using ended c rfl)

theorem dropWhile_stop : rest.dropWhile kind = rest := by
  cases rest with
  | nil => rfl
  | cons c rest => exact List.dropWhile_cons_of_neg (by simpa using ended c rfl)

variable (all : ∀ c ∈ front, kind c = true)

include all

theorem takeWhile_append_stop : (front ++ rest).takeWhile kind = front := by
  rw [List.takeWhile_append_of_pos all, takeWhile_stop ended, List.append_nil]

theorem dropWhile_append_stop : (front ++ rest).dropWhile kind = rest := by
  rw [List.dropWhile_append_of_pos all, dropWhile_stop ended]

end Stop

/-- The pieces of an input between separators. -/
def words (sep : α → Bool) (input : List α) : List (List α) :=
  (input.splitOnP sep).filter fun word => !word.isEmpty

variable {sep : α → Bool}

@[simp] theorem words_nil : words sep [] = [] := by simp [words]

theorem words_cons_sep {c : α} (parts : sep c = true) (rest : List α) :
    words sep (c :: rest) = words sep rest := by
  rw [words, List.splitOnP_cons_eq_if_modifyHead, if_pos parts, List.filter_cons_of_neg (by simp), words]

theorem words_dropWhile (input : List α) : words sep (input.dropWhile sep) = words sep input := by
  induction input with
  | nil => rfl
  | cons c rest ih =>
    cases parts : sep c with
    | false => rw [List.dropWhile_cons_of_neg (by simp [parts])]
    | true => rw [List.dropWhile_cons_of_pos parts, ih, words_cons_sep parts]

theorem words_word {word rest : List α} (nonempty : word ≠ [])
    (letters : ∀ c ∈ word, sep c = false) (ended : NextIs sep rest) :
    words sep (word ++ rest) = word :: words sep rest := by
  have kept (tail : List (List α)) : (word :: tail).filter (fun word => !word.isEmpty) =
      word :: tail.filter (fun word => !word.isEmpty) :=
    List.filter_cons_of_pos (by simpa using nonempty)
  cases rest with
  | nil => rw [List.append_nil, words, List.splitOnP_eq_singleton letters, kept]; rfl
  | cons c rest =>
    have parts : sep c = true := ended c rfl
    rw [words_cons_sep parts, words, List.splitOnP_append_cons_of_forall_mem letters c parts, kept]
    rfl

theorem exists_of_words_eq_cons {input word : List α} {tail : List (List α)}
    (first : words sep input = word :: tail) :
    ∃ rest, input.dropWhile sep = word ++ rest ∧ word ≠ [] ∧ (∀ c ∈ word, sep c = false) ∧
      NextIs sep rest ∧ words sep rest = tail := by
  cases start : input.dropWhile sep with
  | nil =>
    rw [← words_dropWhile, start, words_nil] at first
    cases first
  | cons c s =>
    have letter : sep c = false := by simpa using nextIs_dropWhile sep input c (by rw [start]; rfl)
    have whole : (c :: s).takeWhile (fun c => !sep c) ++ (c :: s).dropWhile (fun c => !sep c) = c :: s :=
      List.takeWhile_append_dropWhile
    have letters : ∀ d ∈ (c :: s).takeWhile (fun c => !sep c), sep d = false :=
      fun d member => by simpa using List.mem_takeWhile_imp member
    have nonempty : (c :: s).takeWhile (fun c => !sep c) ≠ [] := by simp [letter]
    have ended : NextIs sep ((c :: s).dropWhile fun c => !sep c) :=
      (nextIs_dropWhile (fun c => !sep c) (c :: s)).imp (by simp)
    rw [← words_dropWhile, start, ← whole, words_word nonempty letters ended] at first
    injection first with same others
    exact ⟨_, by rw [← same, whole], same ▸ nonempty, same ▸ letters, ended, others⟩

end Words

/-! ## The conversion -/

/-- White space of the C locale. -/
def isspace (c : Char) : Bool := c == ' ' || (9 ≤ c.toNat && c.toNat ≤ 13)

def isSign (c : Char) : Bool := c == '+' || c == '-'

def digitsValue (digits : List Char) : ℕ :=
  digits.foldl (fun value c => 10 * value + (c.toNat - '0'.toNat)) 0

def magnitude? (digits : List Char) : Option ℕ :=
  if digits ≠ [] ∧ digits.all Char.isDigit then some (digitsValue digits) else none

/-- The value of a decimal integer: digits, with or without a sign before them. -/
def decimal? : List Char → Option ℤ
  | [] => none
  | c :: digits =>
    if c = '-' then (magnitude? digits).map fun n : ℕ => -(n : ℤ)
    else if c = '+' then (magnitude? digits).map fun n : ℕ => (n : ℤ)
    else (magnitude? (c :: digits)).map fun n : ℕ => (n : ℤ)

/-- The input item of `%d`, and what follows it. -/
def inputItem : List Char → List Char × List Char
  | [] => ([], [])
  | c :: rest =>
    if isSign c then (c :: rest.takeWhile Char.isDigit, rest.dropWhile Char.isDigit)
    else ((c :: rest).takeWhile Char.isDigit, (c :: rest).dropWhile Char.isDigit)

/-- `scanf("%d",&held)`: the value held after it and the input left. What is stored for
an integer is a parameter, since the standard leaves it open when it exceeds an int. -/
def scanInt (store : ℤ → ℤ) (held : ℤ) (input : List Char) : ℤ × List Char :=
  let (item, rest) := inputItem (input.dropWhile isspace)
  ((decimal? item).elim held store, rest)

theorem scanInt_dropWhile (store : ℤ → ℤ) (held : ℤ) (input : List Char) :
    scanInt store held (input.dropWhile isspace) = scanInt store held input := by
  rw [scanInt, dropWhile_stop (nextIs_dropWhile isspace input), scanInt]

theorem scanInt_of_item {store : ℤ → ℤ} {held : ℤ} {input item rest : List Char}
    (letter : NextIs (fun c => !isspace c) input) (read : inputItem input = (item, rest)) :
    scanInt store held input = ((decimal? item).elim held store, rest) := by
  rw [scanInt, dropWhile_stop letter, read]

abbrev NoDigit (rest : List Char) : Prop := NextIs (fun c => !c.isDigit) rest

theorem isSign_iff {c : Char} : isSign c = true ↔ c = '+' ∨ c = '-' := by simp [isSign]

theorem not_isDigit_of_isspace {c : Char} (white : isspace c = true) : c.isDigit = false := by
  rw [← Bool.not_eq_true, Char.isDigit_iff_toNat]
  simp only [isspace, Bool.or_eq_true, beq_iff_eq, Bool.and_eq_true, decide_eq_true_eq] at white
  rcases white with rfl | range
  · decide
  · rintro ⟨low, -⟩
    have zero : '0'.toNat = 48 := rfl
    omega

theorem NoDigit.append_space {s rest : List Char} (digits : NoDigit s)
    (ended : NextIs isspace rest) : NoDigit (s ++ rest) :=
  NextIs.append digits (ended.imp fun _ white => by simp [not_isDigit_of_isspace white])

theorem magnitude_isSome_iff {digits : List Char} :
    (magnitude? digits).isSome ↔ digits ≠ [] ∧ ∀ c ∈ digits, c.isDigit = true := by
  unfold magnitude?
  split_ifs with valid
  · simpa using valid
  · simpa using valid

theorem decimal_isSome_iff {c : Char} {digits : List Char} : (decimal? (c :: digits)).isSome ↔
    if isSign c then digits ≠ [] ∧ ∀ d ∈ digits, d.isDigit = true
    else ∀ d ∈ c :: digits, d.isDigit = true := by
  rw [decimal?]
  by_cases minus : c = '-'
  · rw [if_pos minus, if_pos (isSign_iff.mpr (.inr minus)), Option.isSome_map, magnitude_isSome_iff]
  by_cases plus : c = '+'
  · rw [if_neg minus, if_pos plus, if_pos (isSign_iff.mpr (.inl plus)), Option.isSome_map,
      magnitude_isSome_iff]
  · have unsigned : ¬ isSign c = true := by simp [isSign_iff, minus, plus]
    rw [if_neg minus, if_neg plus, if_neg unsigned, Option.isSome_map, magnitude_isSome_iff]
    exact and_iff_right (List.cons_ne_nil c digits)

section InputItem

variable {c : Char} {item rest : List Char}

theorem inputItem_sign (sign : isSign c = true) (ended : NoDigit rest) :
    inputItem (c :: rest) = ([c], rest) := by
  rw [inputItem, if_pos sign, takeWhile_stop ended, dropWhile_stop ended]

theorem inputItem_other (sign : isSign c = false) (digit : c.isDigit = false) :
    inputItem (c :: rest) = ([], c :: rest) := by
  rw [inputItem, if_neg (by simp [sign]), List.takeWhile_cons_of_neg (by simp [digit]),
    List.dropWhile_cons_of_neg (by simp [digit])]

theorem inputItem_decimal (integer : (decimal? item).isSome) (ended : NoDigit rest) :
    inputItem (item ++ rest) = (item, rest) := by
  cases item with
  | nil => cases integer
  | cons c digits =>
    rw [decimal_isSome_iff] at integer
    rw [List.cons_append, inputItem]
    split_ifs at integer ⊢ with sign
    · rw [takeWhile_append_stop ended integer.2, dropWhile_append_stop ended integer.2]
    · rw [← List.cons_append, takeWhile_append_stop ended integer,
        dropWhile_append_stop ended integer]

theorem inputItem_cases (c : Char) (s : List Char) :
    isSign c = false ∧ c.isDigit = false ∨ isSign c = true ∧ NoDigit s ∨
      ∃ item rest, c :: s = item ++ rest ∧ (decimal? item).isSome ∧ NoDigit rest := by
  have split : s.takeWhile Char.isDigit ++ s.dropWhile Char.isDigit = s :=
    List.takeWhile_append_dropWhile
  have ended := nextIs_dropWhile Char.isDigit s
  have digits : ∀ d ∈ s.takeWhile Char.isDigit, d.isDigit = true :=
    fun _ member => List.mem_takeWhile_imp member
  have whole : c :: s = (c :: s.takeWhile Char.isDigit) ++ s.dropWhile Char.isDigit := by
    rw [List.cons_append, split]
  cases sign : isSign c with
  | true =>
    by_cases lone : s.takeWhile Char.isDigit = []
    · rw [lone, List.nil_append] at split
      exact .inr (.inl ⟨rfl, split ▸ ended⟩)
    · refine .inr (.inr ⟨_, _, whole, ?_, ended⟩)
      rw [decimal_isSome_iff, if_pos sign]
      exact ⟨lone, digits⟩
  | false =>
    cases digit : c.isDigit with
    | false => exact .inl ⟨rfl, rfl⟩
    | true =>
      refine .inr (.inr ⟨_, _, whole, ?_, ended⟩)
      rw [decimal_isSome_iff, if_neg (by simp [sign])]
      exact List.forall_mem_cons.mpr ⟨digit, digits⟩

end InputItem

end PathAccelerator.Text
