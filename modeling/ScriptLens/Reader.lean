import ScriptLens.SyntaxError

/-!
Readers take tokens from the front of a list. A reader that fails leaves the offending token in front. No
reader gives back what was read before it (`Forward`); a `Consumer` moreover takes something whenever it
succeeds, so it can be repeated.
-/

namespace ScriptLens

abbrev Reader (α : Type) := EStateM Fault (List Token) α

namespace Reader

variable {α β : Type}

/-- The tokens left, whatever came of the reading. -/
def left : EStateM.Result Fault (List Token) α → List Token
  | .ok _ rest => rest
  | .error _ rest => rest

/-- What a reader leaves is the end of what it was given. -/
def Forward (read : Reader α) : Prop := ∀ tokens, left (read tokens) <:+ tokens

theorem Forward.pure (value : α) : Forward (Pure.pure value) := fun _ => List.suffix_rfl

theorem Forward.throw (fault : Fault) : Forward (MonadExcept.throw fault : Reader α) := fun _ => List.suffix_rfl

theorem Forward.bind {read : Reader α} {next : α → Reader β} (first : Forward read)
    (later : ∀ value, Forward (next value)) : Forward (read >>= next) := by
  intro tokens
  have start := first tokens
  change left (EStateM.bind read next tokens) <:+ tokens
  unfold EStateM.bind
  split
  · next value rest outcome =>
    rw [outcome] at start
    exact (later value rest).trans start
  · next fault rest outcome =>
    rw [outcome] at start
    exact start

theorem Forward.map {read : Reader α} (change : α → β) (forward : Forward read) : Forward (change <$> read) :=
  forward.bind fun _ => Forward.pure _

/-- Takes a token of this kind, and blames its absence on the fault. -/
def take (kind : Kind) (fault : Fault) : Reader Token
  | [] => .error fault []
  | token :: rest => if token.kind = kind then .ok token rest else .error fault (token :: rest)

theorem Forward.take (kind : Kind) (fault : Fault) : Forward (take kind fault) := by
  intro tokens
  cases tokens with
  | nil => exact List.suffix_rfl
  | cons token rest =>
    simp only [Reader.take]
    split
    · exact List.suffix_cons ..
    · exact List.suffix_rfl

def expect (production : Production) (kind : Kind) : Reader Token :=
  take kind ⟨production, .token kind⟩

def identifier (production : Production) : Reader Token :=
  take .identifier ⟨production, .identifier⟩

end Reader

/-- A reader that takes at least one token when it succeeds. -/
structure Consumer (α : Type) where
  read : Reader α
  forward : Reader.Forward read
  consumes : ∀ {tokens value rest}, read tokens = .ok value rest → rest.length < tokens.length

end ScriptLens
