import Mathlib.Data.Nat.Dist
import ScriptLens.Proofs.Explorer.Window

/-!
How far a pane is scrolled to bring a row into view. It goes to the nearest offset that shows the row and leaves no
space empty below the last one (`Window.settle_nearest`). No number on the way there is too large for a word of the
machine, and none is less than what is taken from it (`Window.settleIn_eq`).
-/

namespace ScriptLens.Explorer

/-- Of all numbers of a kind, the one nearest to a given one. -/
def Nearest (kind : Nat → Prop) (origin number : Nat) : Prop :=
  kind number ∧ ∀ other, kind other → other ≠ number → Nat.dist origin number < Nat.dist origin other

/-- A number that is above the given one only as the least of its kind, and below it only as the greatest. -/
theorem nearest_of_bounds {kind : Nat → Prop} {origin number : Nat} (own : kind number)
    (least : origin < number → ∀ other, kind other → number ≤ other)
    (greatest : number < origin → ∀ other, kind other → other ≤ number) : Nearest kind origin number := by
  refine ⟨own, fun other holds different => ?_⟩
  unfold Nat.dist
  rcases Nat.lt_trichotomy origin number with above | same | below
  · have bound := least above other holds
    omega
  · omega
  · have bound := greatest below other holds
    omega

/-! A machine counts in words. A sum may be too large for a word, and there is no difference below zero. -/
namespace Word

def add (limit a b : Nat) : Option Nat := if a + b < limit then some (a + b) else none

def sub (a b : Nat) : Option Nat := if b ≤ a then some (a - b) else none

theorem add_eq {limit a b : Nat} (fits : a + b < limit) : add limit a b = some (a + b) := if_pos fits

theorem sub_eq {a b : Nat} (enough : b ≤ a) : sub a b = some (a - b) := if_pos enough

end Word

namespace Window

/-- The offsets that show the target and leave no space empty below the last row while there are rows above. -/
def Showing (total rows target offset : Nat) : Prop :=
  offset ≤ total - rows ∧ offset ≤ target ∧ target < offset + rows

/-- What `reveal` computes, in words below a limit. -/
def revealIn (limit rows offset target : Nat) : Option Nat :=
  if target < offset then some target
  else do
    let stop ← Word.add limit offset rows
    if stop ≤ target then Word.sub (← Word.add limit target 1) rows
    else some offset

/-- What `settle` computes, in words below a limit. Only the last difference is meant to stop at zero. -/
def settleIn (limit total rows offset : Nat) (target : Option Nat) : Option Nat := do
  let shown ← (target.map (revealIn limit rows offset)).getD (some offset)
  return min shown (total - rows)

variable {limit total rows offset target : Nat}

theorem settle_none (total rows offset : Nat) : settle total rows offset none = min offset (total - rows) := rfl

theorem settle_nearest (present : target < total) (room : 0 < rows) (offset : Nat) :
    Nearest (Showing total rows target) offset (settle total rows offset (some target)) := by
  have bound := settle_le total rows offset (some target)
  have shown := settle_shows present room offset
  have value : settle total rows offset (some target) = min (reveal rows offset target) (total - rows) := rfl
  refine nearest_of_bounds ⟨bound, shown⟩ (fun above other showing => ?_) (fun below other showing => ?_)
  -- Down only for a target behind the window, and then it becomes the last row of it.
  · obtain ⟨-, -, behind⟩ := showing
    have last : reveal rows offset target = target + 1 - rows ∨ reveal rows offset target ≤ offset := by
      unfold reveal
      split
      · omega
      · split <;> omega
    omega
  -- Up only for a target in front of the window, which becomes its first row, or else for the rows above.
  · obtain ⟨full, before, -⟩ := showing
    have first : reveal rows offset target = target ∨ offset ≤ reveal rows offset target := by
      unfold reveal
      split
      · omega
      · split <;> omega
    omega

theorem revealIn_eq (next : target + 1 < limit) (fits : offset ≤ target → offset + rows < limit) :
    revealIn limit rows offset target = some (reveal rows offset target) := by
  unfold revealIn reveal
  split
  · rfl
  · next behind =>
    rw [Word.add_eq (fits (Nat.le_of_not_lt behind)), Option.bind_eq_bind, Option.bind_some]
    split
    · next passed =>
      have enough : rows ≤ target + 1 := by omega
      rw [Word.add_eq next]
      exact Word.sub_eq enough
    · rfl

/-- In words the outcome is the same, if the row behind the target can be counted and the row behind the window too. -/
theorem settleIn_eq {target : Option Nat} (next : ∀ row ∈ target, row + 1 < limit)
    (fits : ∀ row ∈ target, offset ≤ row → offset + rows < limit) :
    settleIn limit total rows offset target = some (settle total rows offset target) := by
  cases target with
  | none => rfl
  | some row =>
    have revealed := revealIn_eq (next row rfl) (fits row rfl)
    rw [settleIn, Option.map_some, Option.getD_some, revealed]
    rfl

/-- The window of a pane of no height has a row all the same. It is in front of one that can be counted. -/
theorem add_rows_lt {height : Nat} (fits : offset + height < limit) (next : target + 1 < limit)
    (front : offset ≤ target) : offset + Window.rows height < limit := by
  unfold Window.rows
  omega

end Window

/-- The offset to draw at, computed in words below a limit. -/
def SourcePane.settleIn (limit : Nat) (pane : SourcePane) (height offset : Nat) (reveal : Option Nat) : Option Nat :=
  Window.settleIn limit pane.lines.length (Window.rows height) offset (reveal.map (· - 1))

/-- The offset to draw at, computed in words below a limit. -/
def TokensPane.settleIn (limit : Nat) (pane : TokensPane) (height offset : Nat) (follow : Bool) : Option Nat :=
  if pane.tokens.isEmpty then some offset
  else Window.settleIn limit pane.tokens.size (Window.rows height) offset (if follow then pane.selected else none)

section
variable {limit height offset : Nat} (fits : offset + height < limit)
include fits

theorem SourcePane.settleIn_eq (two : 2 ≤ limit) (pane : SourcePane) {reveal : Option Nat}
    (small : ∀ line ∈ reveal, line < limit) :
    pane.settleIn limit height offset reveal = some (pane.settle height offset reveal) := by
  have next : ∀ row ∈ reveal.map (· - 1), row + 1 < limit := by
    intro row member
    obtain ⟨line, revealed, rfl⟩ := Option.map_eq_some_iff.1 member
    have bound := small line revealed
    omega
  exact Window.settleIn_eq next fun row member front => Window.add_rows_lt fits (next row member) front

theorem TokensPane.settleIn_eq (pane : TokensPane) (small : ∀ index ∈ pane.selected, index + 1 < limit)
    (follow : Bool) : pane.settleIn limit height offset follow = some (pane.settle height offset follow) := by
  unfold settleIn settle
  split
  · rfl
  · have next : ∀ row ∈ (if follow then pane.selected else none), row + 1 < limit := by
      intro row member
      split at member
      · exact small row member
      · contradiction
    exact Window.settleIn_eq next fun row member front => Window.add_rows_lt fits (next row member) front

end

theorem TokensPane.settle_of_present {pane : TokensPane} (present : pane.tokens.size ≠ 0) (height offset : Nat)
    (follow : Bool) : pane.settle height offset follow =
      Window.settle pane.tokens.size (Window.rows height) offset (if follow then pane.selected else none) :=
  if_neg (mt Array.isEmpty_iff_size_eq_zero.1 present)

/-- A pane is drawn at the nearest offset that shows the row it has to bring into view, and without such a row at the
nearest one that leaves no space empty. A list without tokens keeps its offset. All of this can be computed in words of
a machine, also for a line 0 and for lines and tokens that are not there. -/
theorem scroll_nearest (height offset : Nat) :
    let rows := max 1 (height - 2)
    (∀ pane : SourcePane, let total := pane.lines.length
      (∀ target < total, Nearest (Window.Showing total rows target) offset
        (pane.settle height offset (some (target + 1)))) ∧
      pane.settle height offset none = min offset (total - rows)) ∧
    (∀ pane : TokensPane, let total := pane.tokens.size
      (∀ target < total, pane.selected = some target → Nearest (Window.Showing total rows target) offset
        (pane.settle height offset true)) ∧
      (total ≠ 0 → pane.settle height offset false = min offset (total - rows) ∧
        (pane.selected = none → pane.settle height offset true = min offset (total - rows))) ∧
      (total = 0 → ∀ follow, pane.settle height offset follow = offset)) ∧
    ∀ limit, 2 ≤ limit → offset + height < limit →
      (∀ (pane : SourcePane) (reveal : Option Nat), (∀ line ∈ reveal, line < limit) →
        pane.settleIn limit height offset reveal = some (pane.settle height offset reveal)) ∧
      ∀ (pane : TokensPane) (follow : Bool), (∀ index ∈ pane.selected, index + 1 < limit) →
        pane.settleIn limit height offset follow = some (pane.settle height offset follow) := by
  intro rows
  have room : 0 < Window.rows height := Window.rows_pos height
  refine ⟨fun pane => ⟨fun target present => ?_, rfl⟩, fun pane => ⟨fun target present chosen => ?_, fun some => ?_,
    fun none follow => ?_⟩, fun limit two fits => ⟨fun pane reveal small => ?_, fun pane follow small => ?_⟩⟩
  · exact Window.settle_nearest present room offset
  · rw [TokensPane.settle_of_present (Nat.ne_zero_of_lt present), if_pos rfl, chosen]
    exact Window.settle_nearest present room offset
  · refine ⟨TokensPane.settle_of_present some height offset false, fun unchosen => ?_⟩
    rw [TokensPane.settle_of_present some, if_pos rfl, unchosen]
    exact Window.settle_none _ _ offset
  · exact if_pos (Array.isEmpty_iff_size_eq_zero.2 none)
  · exact pane.settleIn_eq fits two small
  · exact pane.settleIn_eq fits small follow

/-- From far past the end of three rows, in a window of one row: up to the second row, or just to the last one. -/
theorem scroll_nearest_far_past :
    let pane : SourcePane := ⟨["a", "b", "c"], #[], fun _ => [], [], none, false⟩
    let token : Token := ⟨.semicolon, ";", .start⟩
    let list : TokensPane := ⟨#[token, token, token], some 1, false⟩
    2 ^ 40 + 3 < 2 ^ 64 ∧ pane.settle 3 (2 ^ 40) (some 2) = 1 ∧ list.settle 3 (2 ^ 40) true = 1 ∧
      Nearest (Window.Showing 3 1 1) (2 ^ 40) (pane.settle 3 (2 ^ 40) (some 2)) ∧
      Nearest (Window.Showing 3 1 1) (2 ^ 40) (list.settle 3 (2 ^ 40) true) ∧
      pane.settleIn (2 ^ 64) 3 (2 ^ 40) (some 9) = some 2 ∧ list.settleIn (2 ^ 64) 3 (2 ^ 40) false = some 2 := by
  intro pane token list
  have fits : 2 ^ 40 + 3 < 2 ^ 64 := by decide
  obtain ⟨lines, tokens, words⟩ := scroll_nearest 3 (2 ^ 40)
  have near := (lines pane).1 1 (show 1 < 3 by decide)
  have near' := (tokens list).1 1 (show 1 < 3 by decide) rfl
  obtain ⟨shown, listed⟩ := words (2 ^ 64) (by decide) fits
  have behind := shown pane (some 9) fun line member => by
    obtain rfl := Option.some.inj member
    decide
  have chosen := listed list false fun index member => by
    obtain rfl := Option.some.inj member
    decide
  exact ⟨fits, rfl, rfl, near, near', behind, chosen⟩

/-- A list without tokens does not go back to the top. -/
theorem scroll_without_tokens :
    let list : TokensPane := ⟨#[], none, false⟩
    list.settle 5 7 false ≠ min 7 (list.tokens.size - max 1 (5 - 2)) := by
  decide

end ScriptLens.Explorer
