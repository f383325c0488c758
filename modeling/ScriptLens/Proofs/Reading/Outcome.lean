import ScriptLens.Reader

/-!
What comes of readers in sequence. `settled` is the outcome of reading a sentence of which it is known
where it nests too deeply, if it does.
-/

namespace ScriptLens.Reader

variable {α β : Type}

theorem bind_eq_ok {read : Reader α} {next : α → Reader β} {tokens rest : List Token} {value : β} :
    (read >>= next) tokens = .ok value rest ↔
      ∃ first middle, read tokens = .ok first middle ∧ next first middle = .ok value rest := by
  change EStateM.bind read next tokens = _ ↔ _
  unfold EStateM.bind
  cases read tokens <;> simp [and_assoc]

theorem pure_eq_ok {value other : α} {tokens rest : List Token} :
    (pure value : Reader α) tokens = .ok other rest ↔ value = other ∧ tokens = rest := by
  change EStateM.pure value tokens = _ ↔ _
  simp [EStateM.pure]

theorem bind_of_ok {read : Reader α} {next : α → Reader β} {tokens rest : List Token} {value : α}
    (reads : read tokens = .ok value rest) : (read >>= next) tokens = next value rest := by
  change EStateM.bind read next tokens = _
  unfold EStateM.bind
  rw [reads]

theorem bind_of_error {read : Reader α} {next : α → Reader β} {tokens rest : List Token} {fault : Fault}
    (fails : read tokens = .error fault rest) : (read >>= next) tokens = .error fault rest := by
  change EStateM.bind read next tokens = _
  unfold EStateM.bind
  rw [fails]

/-- Success with a value, or failure at the first place where a level is opened too many. -/
def settled (overflow : Option (Production × List Token)) (value : α) (rest : List Token) :
    EStateM.Result Fault (List Token) α :=
  match overflow with
  | none => .ok value rest
  | some (production, left) => .error ⟨production, .shallowerNesting⟩ left

theorem settled_eq_ok {overflow : Option (Production × List Token)} {value other : α} {rest rest' : List Token} :
    settled overflow value rest = .ok other rest' ↔ overflow = none ∧ value = other ∧ rest = rest' := by
  cases overflow <;> simp [settled]

theorem expected_of_settled_eq_error {overflow : Option (Production × List Token)} {value : α}
    {rest rest' : List Token} {fault : Fault} (failed : settled overflow value rest = .error fault rest') :
    fault.expected = .shallowerNesting := by
  cases overflow with
  | none => contradiction
  | some place =>
    obtain ⟨rfl, -⟩ := EStateM.Result.error.inj failed
    rfl

theorem bind_take {kind : Kind} (fault : Fault) (next : Token → Reader β)
    (token : {token : Token // token.kind = kind}) (rest : List Token) :
    (take kind fault >>= next) (token.1 :: rest) = next token.1 rest :=
  bind_of_ok (by rw [take, if_pos token.2])

theorem bind_settled {read : Reader α} {next : α → Reader β} {tokens middle rest : List Token}
    {overflow overflow' : Option (Production × List Token)} {first : α} {value : β}
    (start : read tokens = settled overflow first middle) (later : next first middle = settled overflow' value rest) :
    (read >>= next) tokens = settled (overflow.or overflow') value rest := by
  change EStateM.bind read next tokens = _
  unfold EStateM.bind
  rw [start]
  cases overflow with
  | none => exact later
  | some place => rfl

/-- What is done at the end opens no level. -/
theorem bind_settled_ok {read : Reader α} {next : α → Reader β} {tokens middle rest : List Token}
    {overflow : Option (Production × List Token)} {first : α} {value : β}
    (start : read tokens = settled overflow first middle) (later : next first middle = .ok value rest) :
    (read >>= next) tokens = settled overflow value rest := by
  calc
    _ = settled (overflow.or none) value rest := bind_settled start later
    _ = _ := by rw [Option.or_none]

end ScriptLens.Reader
