import PathAccelerator.Graph.PointerTree
import PathAccelerator.Graph.Walk
import Mathlib.Data.Fin.Basic
import Mathlib.Data.Nat.Notation

/-! The function min_path of the host program and the printing around it.

A call yields its prints and drawn lines in order. The number of nested calls is
bounded by an argument, and a read outside an array yields nothing at all.
-/

set_option autoImplicit false

namespace PathAccelerator.Host

open PathAccelerator.Graph

/-- The global arrays of the program, `max` long. -/
structure Globals (N : ℕ) where
  neighbor : Fin N → BitVec 16
  distance : Fin N → BitVec 16
  xCoord : Fin N → BitVec 16
  yCoord : Fin N → BitVec 16

/-- The arguments of VGA_line after `base`. -/
structure Segment where
  x1 : ℕ
  y1 : ℕ
  x2 : ℕ
  y2 : ℕ
  deriving DecidableEq

/-- `index` is `printf("%d",i)` of a node index. -/
inductive Output where
  | vgaLine (segment : Segment)
  | index (i : ℕ)
  | text (literal : String)
  deriving DecidableEq

variable {N : ℕ}

def readArray (a : Fin N → BitVec 16) (i : ℕ) : Option ℕ :=
  if h : i < N then some (a ⟨i, h⟩).toNat else none

def vgaLine (g : Globals N) (dest next : ℕ) : Option Output := do
  let x1 ← readArray g.xCoord dest
  let y1 ← readArray g.yCoord dest
  let x2 ← readArray g.xCoord next
  let y2 ← readArray g.yCoord next
  return .vgaLine ⟨x1, y1, x2, y2⟩

/-- The recursive call is made with `dest` already replaced by its neighbor, which
is printed when the call returns. -/
def minPath (g : Globals N) (start : ℕ) : ℕ → ℕ → Option (List Output)
  | 0, _ => none
  | depth + 1, dest => do
    let next ← readArray g.neighbor dest
    if next ≠ start then
      let line ← vgaLine g dest next
      let rest ← minPath g start depth next
      return line :: (rest ++ [.index next, .text " ->\n"])
    else
      let line ← vgaLine g dest next
      return [line, .index start, .text " ->\n"]

/-- The last lines of shortestPathFind. -/
def showPath (g : Globals N) (start dest depth : ℕ) : Option (List Output) := do
  let path ← minPath g start depth dest
  return .text "Shortest Path is :\n\n" :: (path ++ [.index dest, .text "\n\n"])

def printed : List Output → List ℕ :=
  List.filterMap fun
    | .index i => some i
    | _ => none

def drawn : List Output → List Segment :=
  List.filterMap fun
    | .vgaLine segment => some segment
    | _ => none

def Globals.segment (g : Globals N) (u v : Fin N) : Segment where
  x1 := (g.xCoord u).toNat
  y1 := (g.yCoord u).toNat
  x2 := (g.xCoord v).toNat
  y2 := (g.yCoord v).toNat

@[simp] theorem readArray_val (a : Fin N → BitVec 16) (v : Fin N) :
    readArray a v.val = some (a v).toNat := by
  simp [readArray]

@[simp] theorem vgaLine_val (g : Globals N) (u v : Fin N) :
    vgaLine g u.val v.val = some (.vgaLine (g.segment u v)) := by
  simp [vgaLine, Globals.segment]

section Recursion

variable {g : Globals N} {pred : Fin N → Fin N} {s v : Fin N} {hops : ℕ}
  (pointers : ∀ v, (g.neighbor v).toNat = (pred v).val)

include pointers

theorem minPath_last (depth : ℕ) (top : pred v = s) :
    minPath g s (depth + 1) v =
      some [.vgaLine (g.segment v (pred v)), .index s, .text " ->\n"] := by
  simp [minPath, pointers v, top]

theorem minPath_climb {depth : ℕ} (inner : pred v ≠ s) {rest : List Output}
    (above : minPath g s depth (pred v) = some rest) :
    minPath g s (depth + 1) v =
      some (.vgaLine (g.segment v (pred v)) :: (rest ++ [.index (pred v), .text " ->\n"])) := by
  have different : (pred v).val ≠ s.val := fun same => inner (Fin.ext same)
  simp [minPath, pointers v, above, different]

/-- Each call climbs one pointer: the prints come out from the start node down,
the lines are drawn from the destination up. -/
theorem minPath_eq (height : Height pred s v (hops + 1)) (depth : ℕ) (enough : hops < depth) :
    ∃ outputs, minPath g s depth v = some outputs ∧
      printed outputs = (trail pred hops (pred v)).map Fin.val ∧
      drawn outputs = (legs (trail pred (hops + 1) v)).reverse.map
        fun leg => g.segment leg.2 leg.1 := by
  obtain ⟨depth, rfl⟩ : ∃ less, depth = less + 1 := ⟨depth - 1, by omega⟩
  induction hops generalizing v depth with
  | zero =>
    have top : pred v = s := height.reaches
    exact ⟨_, minPath_last pointers depth top, by simp [printed, trail, top], by simp [drawn, trail, legs]⟩
  | succ hops ih =>
    have inner : pred v ≠ s := height.first 1 (by omega)
    obtain ⟨less, rfl⟩ : ∃ less, depth = less + 1 := ⟨depth - 1, by omega⟩
    obtain ⟨rest, above, prints, lines⟩ := ih height.of_succ less (by omega)
    refine ⟨_, minPath_climb pointers inner above, ?_, ?_⟩
    · unfold printed at prints ⊢
      simp [prints, trail]
    · obtain ⟨before, split⟩ := trail_concat pred (hops + 1) (pred v)
      have last : trail pred (hops + 1 + 1) v = before ++ [pred v, v] := by
        rw [trail, split, List.append_assoc, List.singleton_append]
      rw [last, legs_concat, ← split]
      unfold drawn at lines ⊢
      simp [lines]

/-- With pointers that form a tree the recursion ends for every destination, with
no more nested calls than there are nodes. -/
theorem minPath_returns (tree : PointerTree pred s) (v : Fin N) :
    ∃ outputs, minPath g s N v = some outputs := by
  obtain ⟨hops, height⟩ := tree.height v
  have bound := height.lt_card
  rw [Fintype.card_fin] at bound
  cases hops with
  | zero =>
    obtain rfl : v = s := height.reaches
    have once := minPath_last pointers (N - 1) tree.fixed
    rw [Nat.sub_add_cancel bound] at once
    exact ⟨_, once⟩
  | succ hops =>
    obtain ⟨outputs, same, _⟩ := minPath_eq pointers height N (by omega)
    exact ⟨outputs, same⟩

end Recursion

end PathAccelerator.Host
