import ScriptLens.Proofs.Acceptance

/-!
Sentences that nest too deeply. Each token of a derivation lies in so many negations, parentheses and blocks (`depths`),
and a sentence is refused at the first token that lies in more of them than levels are allowed
(`Program.parse_too_deep`).
-/

namespace ScriptLens

/-- Tokens with the number of levels that are open at them. -/
abbrev Depths := List (Token × Nat)

/-- The token opens a level, and which production is at work there. -/
def Token.Opens (token : Token) (production : Production) : Prop :=
  production = .expression ∧ (token.kind = .minus ∨ token.kind = .leftParen) ∨
    production = .block ∧ token.kind = .leftBrace

namespace Depths

/-- No more levels than the limit are open, or else what is left, with the tokens behind, starts at the first token
where they are more. -/
def Exceeds (limit : Nat) (rest : List Token) (depths : Depths) : Option (Production × List Token) → Prop
  | none => ∀ entry ∈ depths, entry.2 ≤ limit
  | some (production, left) => ∃ (before : Depths) (found : Token) (behind : Depths),
      depths = before ++ (found, limit + 1) :: behind ∧ (∀ entry ∈ before, entry.2 ≤ limit) ∧
        left = found :: (behind.map Prod.fst ++ rest) ∧ found.Opens production

variable {limit : Nat} {rest : List Token} {front back : Depths} {overflow : Option (Production × List Token)}

theorem Exceeds.append {middle : List Token} {overflow' : Option (Production × List Token)}
    (first : Exceeds limit middle front overflow) (later : Exceeds limit rest back overflow')
    (same : back.map Prod.fst ++ rest = middle) : Exceeds limit rest (front ++ back) (overflow.or overflow') := by
  cases overflow with
  | some place =>
    obtain ⟨before, found, behind, rfl, within, left, opens⟩ := first
    refine ⟨before, found, behind ++ back, ?_, within, ?_, opens⟩
    · rw [List.append_assoc, List.cons_append]
    · rw [left, List.map_append, List.append_assoc, same]
  | none =>
    cases overflow' with
    | none => exact List.forall_mem_append.2 ⟨first, later⟩
    | some place =>
      obtain ⟨before, found, behind, rfl, within, left, opens⟩ := later
      refine ⟨front ++ before, found, behind, ?_, List.forall_mem_append.2 ⟨first, within⟩, left, opens⟩
      rw [List.append_assoc]

theorem Exceeds.behind (within : ∀ entry ∈ front, entry.2 ≤ limit) (exceeds : Exceeds limit rest back overflow) :
    Exceeds limit rest (front ++ back) overflow := by
  have none : Exceeds limit (back.map Prod.fst ++ rest) front none := within
  simpa only [Option.none_or] using none.append exceeds rfl

theorem Exceeds.cons {token : Token} {depth : Nat} (within : depth ≤ limit)
    (exceeds : Exceeds limit rest back overflow) : Exceeds limit rest ((token, depth) :: back) overflow :=
  exceeds.behind (List.forall_mem_singleton.2 within)

theorem Exceeds.before (exceeds : Exceeds limit (back.map Prod.fst ++ rest) front overflow)
    (within : ∀ entry ∈ back, entry.2 ≤ limit) : Exceeds limit rest (front ++ back) overflow := by
  have none : Exceeds limit rest back none := within
  simpa only [Option.or_none] using exceeds.append none rfl

/-- The first token of all is one level too deep. -/
theorem Exceeds.here (limit : Nat) {token : Token} {production : Production} (opens : token.Opens production)
    (behind : Depths) (rest : List Token) : Exceeds limit rest ((token, limit + 1) :: behind)
      (some (production, token :: (behind.map Prod.fst ++ rest))) :=
  ⟨[], token, behind, rfl, by simp, rfl, opens⟩

end Depths

namespace Input

variable {token : Token} {tokens others : List Token}

@[simp] theorem endless_nil : Endless [] := List.forall_mem_nil _

@[simp] theorem endless_cons : Endless (token :: tokens) ↔ token.kind ≠ .endOfInput ∧ Endless tokens :=
  List.forall_mem_cons

@[simp] theorem endless_append : Endless (tokens ++ others) ↔ Endless tokens ∧ Endless others :=
  List.forall_mem_append

end Input

namespace Expr.Derivation

variable {layer : Layer}

/-- Each token with the negations and parentheses that it belongs to, and those around the derivation. -/
def depths {layer : Layer} : Derivation layer → Nat → Depths
  | leaf atom, outer => [(atom.1, outer)]
  | negate op inner, outer => (op.1, outer + 1) :: inner.depths (outer + 1)
  | parens opening inner closing, outer =>
    (opening.1, outer + 1) :: (inner.depths (outer + 1) ++ [(closing.1, outer + 1)])
  | single inner, outer => inner.depths outer
  | join left op right, outer => left.depths outer ++ (op.1, outer) :: right.depths outer

theorem map_fst_depths (derivation : Derivation layer) (outer : Nat) :
    (derivation.depths outer).map Prod.fst = derivation.tokens := by
  induction derivation generalizing outer with
  | leaf => rfl
  | negate op inner ih => simp [depths, tokens, ih]
  | parens opening inner closing ih => simp [depths, tokens, ih]
  | single inner ih => exact ih outer
  | join left op right ihLeft ihRight => simp [depths, tokens, ihLeft, ihRight]

theorem exceeds {limit : Nat} (derivation : Derivation layer) {outer allowed : Nat} (room : outer + allowed = limit)
    (rest : List Token) : (derivation.depths outer).Exceeds limit rest (derivation.overflow allowed rest) := by
  have within : outer ≤ limit := by omega
  induction derivation generalizing outer allowed rest with
  | leaf => simpa [depths, overflow, Depths.Exceeds] using within
  | negate op inner ih =>
    cases allowed with
    | zero =>
      obtain rfl : outer = limit := room
      have here := Depths.Exceeds.here outer (.inl ⟨rfl, .inl op.2⟩) (inner.depths (outer + 1)) rest
      rwa [map_fst_depths] at here
    | succ allowed =>
      have deeper : outer + 1 ≤ limit := by omega
      exact (ih (by omega) rest deeper).cons deeper
  | parens opening inner closing ih =>
    cases allowed with
    | zero =>
      obtain rfl : outer = limit := room
      have here := Depths.Exceeds.here outer (.inl ⟨rfl, .inr opening.2⟩)
        (inner.depths (outer + 1) ++ [(closing.1, outer + 1)]) rest
      simpa [depths, overflow, map_fst_depths] using here
    | succ allowed =>
      have deeper : outer + 1 ≤ limit := by omega
      exact ((ih (by omega) (closing.1 :: rest) deeper).before (List.forall_mem_singleton.2 deeper)).cons deeper
  | single inner ih => exact ih room rest within
  | join left op right ihLeft ihRight =>
    have first := ihLeft room (op.1 :: (right.tokens ++ rest)) within
    exact first.append ((ihRight room rest within).cons within) (by simp [map_fst_depths])

theorem endless (derivation : Derivation layer) : Input.Endless derivation.tokens := by
  induction derivation with
  | leaf atom => rcases atom.2 with kind | kind | kind <;> simp [tokens, kind]
  | negate op inner ih => simp [tokens, op.2, ih]
  | parens opening inner closing ih => simp [tokens, opening.2, closing.2, ih]
  | single inner ih => exact ih
  | join left op right ihLeft ihRight =>
    have joins : op.1.kind ≠ .endOfInput := by
      intro kind
      have joins := op.2
      simp [Precedence.ofToken?, kind] at joins
    simp [tokens, joins, ihLeft, ihRight]

end Expr.Derivation

namespace Expr.Terminated

def depths (ending : Expr.Terminated) (outer : Nat) : Depths :=
  ending.value.depths outer ++ [(ending.semicolon.1, outer)]

theorem map_fst_depths (ending : Expr.Terminated) (outer : Nat) :
    (ending.depths outer).map Prod.fst = ending.tokens := by
  simp [depths, tokens, Derivation.map_fst_depths]

theorem exceeds {limit : Nat} (ending : Expr.Terminated) {outer allowed : Nat} (room : outer + allowed = limit)
    (rest : List Token) : (ending.depths outer).Exceeds limit rest (ending.overflow allowed rest) :=
  (ending.value.exceeds room (ending.semicolon.1 :: rest)).before (List.forall_mem_singleton.2 (Nat.le.intro room))

theorem endless (ending : Expr.Terminated) : Input.Endless ending.tokens := by
  simp [tokens, ending.value.endless, ending.semicolon.2]

end Expr.Terminated

namespace Expr.Guard

/-- The parentheses are no level. -/
def depths (guard : Expr.Guard) (outer : Nat) : Depths :=
  (guard.opening.1, outer) :: (guard.condition.depths outer ++ [(guard.closing.1, outer)])

theorem map_fst_depths (guard : Expr.Guard) (outer : Nat) : (guard.depths outer).map Prod.fst = guard.tokens := by
  simp [depths, tokens, Derivation.map_fst_depths]

theorem exceeds {limit : Nat} (guard : Expr.Guard) {outer allowed : Nat} (room : outer + allowed = limit)
    (rest : List Token) : (guard.depths outer).Exceeds limit rest (guard.overflow allowed rest) := by
  have within : outer ≤ limit := by omega
  have inner := guard.condition.exceeds room (guard.closing.1 :: rest)
  exact (inner.before (List.forall_mem_singleton.2 within)).cons within

theorem endless (guard : Expr.Guard) : Input.Endless guard.tokens := by
  simp [tokens, guard.opening.2, guard.condition.endless, guard.closing.2]

end Expr.Guard

namespace Stmt

mutual

/-- The same for statements. A block is one level more than what is around it. -/
def Derivation.depths : Derivation → Nat → Depths
  | .declare word name equals ending, outer =>
    (word.1, outer) :: (name.1, outer) :: (equals.1, outer) :: ending.depths outer
  | .assign name equals ending, outer => (name.1, outer) :: (equals.1, outer) :: ending.depths outer
  | .ifThen word guard body, outer => (word.1, outer) :: (guard.depths outer ++ body.depths outer)
  | .ifElse word guard body other alternative, outer =>
    (word.1, outer) ::
      (guard.depths outer ++ (body.depths outer ++ (other.1, outer) :: alternative.depths outer))
  | .whileDo word guard body, outer => (word.1, outer) :: (guard.depths outer ++ body.depths outer)
  | .returnValue word ending, outer => (word.1, outer) :: ending.depths outer

def Block.depths : Block → Nat → Depths
  | .braces opening inside closing, outer =>
    (opening.1, outer + 1) :: (depthsOf inside (outer + 1) ++ [(closing.1, outer + 1)])

def depthsOf : List Derivation → Nat → Depths
  | [], _ => []
  | derivation :: rest, outer => derivation.depths outer ++ depthsOf rest outer

end

mutual

theorem Derivation.map_fst_depths : (derivation : Derivation) → (outer : Nat) →
    (derivation.depths outer).map Prod.fst = derivation.tokens
  | .declare _ _ _ ending, outer => by simp [Derivation.depths, Derivation.tokens, ending.map_fst_depths]
  | .assign _ _ ending, outer => by simp [Derivation.depths, Derivation.tokens, ending.map_fst_depths]
  | .ifThen _ guard body, outer => by
    simp [Derivation.depths, Derivation.tokens, guard.map_fst_depths, body.map_fst_depths]
  | .ifElse _ guard body _ alternative, outer => by
    simp [Derivation.depths, Derivation.tokens, guard.map_fst_depths, body.map_fst_depths, alternative.map_fst_depths]
  | .whileDo _ guard body, outer => by
    simp [Derivation.depths, Derivation.tokens, guard.map_fst_depths, body.map_fst_depths]
  | .returnValue _ ending, outer => by simp [Derivation.depths, Derivation.tokens, ending.map_fst_depths]

theorem Block.map_fst_depths : (block : Block) → (outer : Nat) → (block.depths outer).map Prod.fst = block.tokens
  | .braces _ inside _, outer => by simp [Block.depths, Block.tokens, map_fst_depthsOf inside]

theorem map_fst_depthsOf : (derivations : List Derivation) → (outer : Nat) →
    (depthsOf derivations outer).map Prod.fst = tokensOf derivations
  | [], _ => rfl
  | derivation :: others, outer => by
    simp [depthsOf, tokensOf, derivation.map_fst_depths, map_fst_depthsOf others]

end

variable {limit : Nat}

theorem exceeds_guarded {outer allowed : Nat} (room : outer + allowed = limit) (guard : Expr.Guard) {body : Block}
    {rest : List Token} (inside : (body.depths outer).Exceeds limit rest (body.overflow allowed rest)) :
    Depths.Exceeds limit rest (guard.depths outer ++ body.depths outer)
      ((guard.overflow allowed (body.tokens ++ rest)).or (body.overflow allowed rest)) :=
  (guard.exceeds room (body.tokens ++ rest)).append inside (by rw [body.map_fst_depths])

mutual

theorem Derivation.exceeds : (derivation : Derivation) → {outer allowed : Nat} → outer + allowed = limit →
    (rest : List Token) → (derivation.depths outer).Exceeds limit rest (derivation.overflow allowed rest)
  | .declare _ _ _ ending, _, _, room, rest =>
    have within := Nat.le.intro room
    (((ending.exceeds room rest).cons within).cons within).cons within
  | .assign _ _ ending, _, _, room, rest =>
    have within := Nat.le.intro room
    ((ending.exceeds room rest).cons within).cons within
  | .ifThen _ guard body, _, _, room, rest =>
    (exceeds_guarded room guard (body.exceeds room rest)).cons (Nat.le.intro room)
  | .ifElse _ guard body other alternative, outer, allowed, room, rest => by
    have within : outer ≤ limit := Nat.le.intro room
    have first := exceeds_guarded room guard (body.exceeds room (other.1 :: (alternative.tokens ++ rest)))
    have second : Depths.Exceeds limit rest ((other.1, outer) :: alternative.depths outer)
        (alternative.overflow allowed rest) := (alternative.exceeds room rest).cons within
    have branches := first.append second (by simp [alternative.map_fst_depths])
    rw [List.append_assoc, Option.or_assoc] at branches
    exact branches.cons within
  | .whileDo _ guard body, _, _, room, rest =>
    (exceeds_guarded room guard (body.exceeds room rest)).cons (Nat.le.intro room)
  | .returnValue _ ending, _, _, room, rest => (ending.exceeds room rest).cons (Nat.le.intro room)

theorem Block.exceeds : (block : Block) → {outer allowed : Nat} → outer + allowed = limit →
    (rest : List Token) → (block.depths outer).Exceeds limit rest (block.overflow allowed rest)
  | .braces opening inside closing, outer, 0, room, rest => by
    obtain rfl : outer = limit := room
    have here := Depths.Exceeds.here outer (.inr ⟨rfl, opening.2⟩)
      (depthsOf inside (outer + 1) ++ [(closing.1, outer + 1)]) rest
    simpa [Block.depths, Block.overflow, map_fst_depthsOf] using here
  | .braces _ inside closing, outer, allowed + 1, room, rest => by
    have deeper : outer + 1 + allowed = limit := by omega
    have within : outer + 1 ≤ limit := Nat.le.intro deeper
    exact ((exceedsOf inside deeper (closing.1 :: rest)).before (List.forall_mem_singleton.2 within)).cons within

theorem exceedsOf : (derivations : List Derivation) → {outer allowed : Nat} → outer + allowed = limit →
    (rest : List Token) → (depthsOf derivations outer).Exceeds limit rest (overflowOf derivations allowed rest)
  | [], _, _, _, _ => List.forall_mem_nil _
  | derivation :: others, _, _, room, rest =>
    (derivation.exceeds room (tokensOf others ++ rest)).append (exceedsOf others room rest)
      (by rw [map_fst_depthsOf])

end

mutual

theorem Derivation.endless : (derivation : Derivation) → Input.Endless derivation.tokens
  | .declare word name equals ending => by
    simp [Derivation.tokens, Token.kind_of_keyword? word.2, name.2, equals.2, ending.endless]
  | .assign name equals ending => by simp [Derivation.tokens, name.2, equals.2, ending.endless]
  | .ifThen word guard body => by
    simp [Derivation.tokens, Token.kind_of_keyword? word.2, guard.endless, body.endless]
  | .ifElse word guard body other alternative => by
    simp [Derivation.tokens, Token.kind_of_keyword? word.2, Token.kind_of_keyword? other.2, guard.endless,
      body.endless, alternative.endless]
  | .whileDo word guard body => by
    simp [Derivation.tokens, Token.kind_of_keyword? word.2, guard.endless, body.endless]
  | .returnValue word ending => by simp [Derivation.tokens, Token.kind_of_keyword? word.2, ending.endless]

theorem Block.endless : (block : Block) → Input.Endless block.tokens
  | .braces opening inside closing => by simp [Block.tokens, opening.2, closing.2, endless_tokensOf inside]

theorem endless_tokensOf : (derivations : List Derivation) → Input.Endless (tokensOf derivations)
  | [] => Input.endless_nil
  | derivation :: others => Input.endless_append.2 ⟨derivation.endless, endless_tokensOf others⟩

end

end Stmt

namespace Program
open Reader Stmt

def minus : Token := ⟨.minus, "-", .start⟩

def name : Token := ⟨.identifier, "a", .start⟩

/-- A name behind so many minus signs. -/
def negated : Nat → Expr.Derivation .operand
  | 0 => .leaf ⟨name, .inr (.inl rfl)⟩
  | count + 1 => .negate ⟨minus, rfl⟩ (negated count)

theorem tokens_negated (count : Nat) : (negated count).tokens = List.replicate count minus ++ [name] := by
  induction count with
  | zero => rfl
  | succ count ih => rw [negated, Expr.Derivation.tokens, ih, List.replicate_succ, List.cons_append]

theorem levels_negated (count : Nat) : (negated count).levels = count := by
  induction count with
  | zero => rfl
  | succ count ih => rw [negated, Expr.Derivation.levels, ih]

theorem mem_depths_negated (count outer : Nat) : (name, outer + count) ∈ (negated count).depths outer := by
  induction count generalizing outer with
  | zero => exact List.mem_cons_self
  | succ count ih =>
    have inside := ih (outer + 1)
    rw [Nat.add_assoc, Nat.add_comm 1 count] at inside
    exact List.mem_cons_of_mem _ inside

/-- An operand as an expression. -/
def wholeOf (operand : Expr.Derivation .operand) : Expr.Derivation .whole :=
  .single (.single (.single (.single (.single (.single operand)))))

/-- A sentence that nests too deeply is refused at the first token that lies in more levels than are allowed. What is
open there counts whatever it is, and what has been closed does not. -/
theorem parse_too_deep (derivations : List Stmt.Derivation)
    (deep : ∃ entry ∈ depthsOf derivations 0, nestingLimit < entry.2) :
    ∃ (before : Depths) (found : Token) (behind : Depths) (production : Production),
      depthsOf derivations 0 = before ++ (found, nestingLimit + 1) :: behind ∧
        (∀ entry ∈ before, entry.2 ≤ nestingLimit) ∧ found.Opens production ∧
        (Input.ofTokens (tokensOf derivations)).parse.1 = .error ⟨⟨production, .shallowerNesting⟩, found⟩ := by
  have exceeds := exceedsOf derivations (Nat.zero_add nestingLimit) []
  have reads := untilEnd_settled [] derivations
  cases overflow : overflowOf derivations nestingLimit [] with
  | none =>
    obtain ⟨entry, member, deep⟩ := deep
    rw [overflow] at exceeds
    exact absurd (exceeds entry member) (Nat.not_le.2 deep)
  | some place =>
    obtain ⟨production, left⟩ := place
    rw [overflow] at exceeds reads
    obtain ⟨before, found, behind, same, within, rfl, opens⟩ := exceeds
    refine ⟨before, found, behind, production, same, within, opens, ?_⟩
    rw [Input.parse, Input.ahead_ofTokens (endless_tokensOf derivations), reads]
    rfl

/-- With a minus sign too many, a minus sign is found. -/
theorem parse_too_deep_negations :
    let word : Token := ⟨.keyword, "return", .start⟩
    let semicolon : Token := ⟨.semicolon, ";", .start⟩
    let value : Expr.Terminated := ⟨wholeOf (negated (nestingLimit + 1)), ⟨semicolon, rfl⟩⟩
    (∃ entry ∈ depthsOf [.returnValue ⟨word, rfl⟩ value] 0, nestingLimit < entry.2) ∧
      (Input.ofTokens (word :: (List.replicate (nestingLimit + 1) minus ++ [name, semicolon]))).parse.1 =
        .error ⟨⟨.expression, .shallowerNesting⟩, minus⟩ := by
  intro word semicolon value
  let derivations : List Stmt.Derivation := [.returnValue ⟨word, rfl⟩ value]
  have deep : ∃ entry ∈ depthsOf derivations 0, nestingLimit < entry.2 := by
    have inside : (name, 0 + (nestingLimit + 1)) ∈ value.depths 0 :=
      List.mem_append_left _ (mem_depths_negated (nestingLimit + 1) 0)
    refine ⟨_, List.mem_append_left _ (List.mem_cons_of_mem _ inside), ?_⟩
    change nestingLimit < 0 + (nestingLimit + 1)
    omega
  refine ⟨deep, ?_⟩
  obtain ⟨before, found, behind, production, same, -, opens, failed⟩ := parse_too_deep derivations deep
  have tokens : tokensOf derivations = word :: (List.replicate (nestingLimit + 1) minus ++ [name, semicolon]) := by
    have inner : (wholeOf (negated (nestingLimit + 1))).tokens = List.replicate (nestingLimit + 1) minus ++ [name] :=
      tokens_negated (nestingLimit + 1)
    simp only [derivations, value, tokensOf, Stmt.Derivation.tokens, Expr.Terminated.tokens, inner, List.append_nil,
      List.append_assoc, List.cons_append, List.nil_append]
  have member : found ∈ tokensOf derivations := by
    rw [← map_fst_depthsOf derivations 0, same]
    simp
  rw [tokens] at failed member
  simp only [List.mem_cons, List.mem_append, List.mem_replicate, List.not_mem_nil, or_false] at member
  rcases member with rfl | ⟨-, rfl⟩ | rfl | rfl <;> simp [Token.Opens, word, name, minus, semicolon] at opens
  rw [failed, opens]

/-- In front of the name one parenthesis and as many minus signs as are allowed are open, and yet the loop is read: its
condition is no level. -/
theorem parse_ok_negated_condition :
    let front := ⟨.keyword, "while", .start⟩ :: ⟨.leftParen, "(", .start⟩ :: List.replicate nestingLimit minus
    let behind := [name, ⟨.rightParen, ")", .start⟩, ⟨.leftBrace, "\x7b", .start⟩, ⟨.rightBrace, "\x7d", .start⟩]
    front.countP (fun token => token.kind = .leftParen ∨ token.kind = .minus) = nestingLimit + 1 ∧
      front.countP (fun token => token.kind = .rightParen) = 0 ∧
      ∃ program, (Input.ofTokens (front ++ behind)).parse.1 = .ok program := by
  intro front behind
  let guard : Expr.Guard :=
    ⟨⟨⟨.leftParen, "(", .start⟩, rfl⟩, wholeOf (negated nestingLimit), ⟨⟨.rightParen, ")", .start⟩, rfl⟩⟩
  let body : Block := .braces ⟨⟨.leftBrace, "\x7b", .start⟩, rfl⟩ [] ⟨⟨.rightBrace, "\x7d", .start⟩, rfl⟩
  let derivations : List Stmt.Derivation := [.whileDo ⟨⟨.keyword, "while", .start⟩, rfl⟩ guard body]
  have inner : (wholeOf (negated nestingLimit)).tokens = List.replicate nestingLimit minus ++ [name] :=
    tokens_negated nestingLimit
  have tokens : tokensOf derivations = front ++ behind := by
    simp [derivations, guard, body, front, behind, tokensOf, Stmt.Derivation.tokens, Block.tokens, Expr.Guard.tokens,
      inner]
  have levels : levelsOf derivations ≤ nestingLimit := by
    have condition : (wholeOf (negated nestingLimit)).levels = nestingLimit := levels_negated nestingLimit
    have positive : 1 ≤ nestingLimit := by decide
    simp only [derivations, guard, body, levelsOf, Derivation.levels, Block.levels, condition]
    omega
  refine ⟨?_, ?_, _, Input.parse_eq_ok_iff.2 ⟨derivations, ?_, levels, rfl⟩⟩
  · simp [front, List.countP_replicate, minus]
  · simp [front, List.countP_replicate, minus]
  · rw [← tokens, Input.ahead_ofTokens (endless_tokensOf derivations)]

end Program
end ScriptLens
