import Mathlib.Order.Bounds.Defs
import ScriptLens.Proofs.Reading.Program

/-!
Reading on behind errors. It cuts the tokens into pieces, each a statement that is read or a stretch that is
given up because of one error (`Program.exists_cuts`). Every error is found behind the one before it.
-/

namespace ScriptLens
open Stmt

namespace Program

/-- Where reading may go on after a fault in front of the token at `found`: at the end, in front of a word that
opens a statement, or behind a semicolon or a closing brace that was skipped. -/
def Boundary (tokens : List Token) (found stop : Nat) : Prop :=
  stop = tokens.length ∨ (∃ token, tokens[stop]? = some token ∧ token.opensStmt) ∨
    found < stop ∧ ∃ token, tokens[stop - 1]? = some token ∧ (token.kind = .semicolon ∨ token.kind = .rightBrace)

/-- A piece of the input: a statement, or what is given up because of an error at some token. -/
inductive Segment where
  | statement (own : List Token) (stmt : Stmt)
  | fault (own : List Token) (error : SyntaxError) (found : Nat)

namespace Segment

def own : Segment → List Token
  | statement own _ => own
  | fault own _ _ => own

def stmt? : Segment → Option Stmt
  | statement _ stmt => some stmt
  | fault _ _ _ => none

def error? : Segment → Option SyntaxError
  | statement _ _ => none
  | fault _ error _ => some error

def found? : Segment → Option Nat
  | statement _ _ => none
  | fault _ _ found => some found

/-- What a piece of these tokens is that starts at some place. A statement can be read by itself. An error is
that of reading from there, and the piece goes on to the first place to go on at. -/
def Fits (tokens : List Token) (start : Nat) : Segment → Prop
  | statement own stmt => (Input.ofTokens own).parse.1 = .ok [stmt]
  | fault own error found =>
    start ≤ found ∧
      (Input.ofTokens (tokens.drop start)).parse =
        (.error error, ⟨tokens.drop found, (Input.ofTokens tokens).stop⟩) ∧
      IsLeast {stop | found ≤ stop ∧ Boundary tokens found stop} (start + own.length)

end Segment

theorem boundary_append (front tokens : List Token) (stop : Nat) :
    Boundary (front ++ tokens) front.length (front.length + stop) ↔ Boundary tokens 0 stop := by
  unfold Boundary
  rw [List.length_append, Nat.add_left_cancel_iff, List.getElem?_append_right (Nat.le_add_right ..),
    Nat.add_sub_cancel_left, Nat.lt_add_right_iff_pos]
  refine or_congr Iff.rfl (or_congr Iff.rfl (and_congr_right fun positive => ?_))
  rw [Nat.add_sub_assoc positive, List.getElem?_append_right (Nat.le_add_right ..), Nat.add_sub_cancel_left]

theorem boundary_cons {token : Token} (plain : ¬(token.kind = .semicolon ∨ token.kind = .rightBrace))
    (rest : List Token) (stop : Nat) : Boundary (token :: rest) 0 (stop + 1) ↔ Boundary rest 0 stop := by
  unfold Boundary
  rw [List.length_cons, Nat.add_right_cancel_iff, List.getElem?_cons_succ]
  refine or_congr Iff.rfl (or_congr Iff.rfl ?_)
  cases stop with
  | zero => simpa using plain
  | succ stop => simp

theorem not_boundary_zero {token : Token} (opensNone : ¬token.opensStmt) (rest : List Token) :
    ¬Boundary (token :: rest) 0 0 := by
  simpa [Boundary] using opensNone

/-- Skipping stops at the first boundary. -/
theorem isLeast_resume (tokens : List Token) : ∃ skipped, tokens = skipped ++ resume tokens ∧
    IsLeast {stop | Boundary tokens 0 stop} skipped.length := by
  fun_induction resume tokens with
  | case1 => exact ⟨[], rfl, .inl rfl, fun _ _ => Nat.zero_le _⟩
  | case2 token rest opens => exact ⟨[], rfl, .inr (.inl ⟨token, rfl, opens⟩), fun _ _ => Nat.zero_le _⟩
  | case3 token rest opensNone closing =>
    refine ⟨[token], rfl, .inr (.inr ⟨Nat.one_pos, token, rfl, closing⟩), fun stop boundary => ?_⟩
    cases stop with
    | zero => exact absurd boundary (not_boundary_zero opensNone rest)
    | succ stop => exact Nat.succ_le_succ (Nat.zero_le stop)
  | case4 token rest opensNone plain ih =>
    obtain ⟨skipped, same, boundary, least⟩ := ih
    refine ⟨token :: skipped, congrArg (token :: ·) same, (boundary_cons plain rest _).2 boundary, fun stop here => ?_⟩
    cases stop with
    | zero => exact absurd here (not_boundary_zero opensNone rest)
    | succ stop => exact Nat.succ_le_succ (least ((boundary_cons plain rest stop).1 here))

/-- The pieces of the tokens behind those in front. -/
inductive Cuts : List Token → List Token → List Segment → Prop where
  | done (front : List Token) : Cuts front [] []
  | statement {front own rest : List Token} {segments : List Segment} {stmt : Stmt} (present : own ≠ [])
      (reads : (Input.ofTokens own).parse.1 = .ok [stmt]) (later : Cuts (front ++ own) rest segments) :
      Cuts front (own ++ rest) (.statement own stmt :: segments)
  | fault {front taken skipped rest : List Token} {segments : List Segment} {error : SyntaxError}
      (present : taken ++ skipped ≠ [])
      (moves : ∀ token ∈ (taken ++ skipped).head?, token.opensStmt → taken ≠ [])
      (fails : (Input.ofTokens (taken ++ (skipped ++ rest))).parse =
        (.error error, ⟨skipped ++ rest, (Input.ofTokens (front ++ (taken ++ (skipped ++ rest)))).stop⟩))
      (least : IsLeast {stop | Boundary (skipped ++ rest) 0 stop} skipped.length)
      (later : Cuts (front ++ (taken ++ skipped)) rest segments) :
      Cuts front (taken ++ (skipped ++ rest)) (.fault (taken ++ skipped) error (front.length + taken.length) :: segments)

theorem fits_fault {front taken skipped rest : List Token} {error : SyntaxError}
    (fails : (Input.ofTokens (taken ++ (skipped ++ rest))).parse =
      (.error error, ⟨skipped ++ rest, (Input.ofTokens (front ++ (taken ++ (skipped ++ rest)))).stop⟩))
    (least : IsLeast {stop | Boundary (skipped ++ rest) 0 stop} skipped.length) :
    (Segment.fault (taken ++ skipped) error (front.length + taken.length)).Fits
      (front ++ (taken ++ (skipped ++ rest))) front.length := by
  have split : front ++ (taken ++ (skipped ++ rest)) = (front ++ taken) ++ (skipped ++ rest) := by simp
  have place : front.length + taken.length = (front ++ taken).length := List.length_append.symm
  refine ⟨Nat.le_add_right .., ?_, ?_, ?_⟩
  · rw [List.drop_left, fails]
    conv => rhs; rw [split, place, List.drop_left]
    rw [split]
  · refine ⟨by rw [List.length_append]; omega, ?_⟩
    rw [split, List.length_append, ← Nat.add_assoc, place, boundary_append]
    exact least.1
  · rintro stop ⟨behind, boundary⟩
    obtain ⟨later, rfl⟩ := Nat.exists_eq_add_of_le behind
    rw [split, place, boundary_append] at boundary
    have bound := least.2 boundary
    rw [List.length_append]
    omega

namespace Cuts

variable {front tokens : List Token} {segments : List Segment}

theorem flatMap_own (cuts : Cuts front tokens segments) :
    segments.flatMap Segment.own = tokens := by
  induction cuts with
  | done => rfl
  | statement _ _ _ ih => rw [List.flatMap_cons, ih, Segment.own]
  | fault _ _ _ _ _ ih => rw [List.flatMap_cons, ih, Segment.own, List.append_assoc]

theorem own_ne_nil (cuts : Cuts front tokens segments) :
    ∀ segment ∈ segments, segment.own ≠ [] := by
  induction cuts with
  | done => simp
  | statement present _ _ ih => exact List.forall_mem_cons.2 ⟨present, ih⟩
  | fault present _ _ _ _ ih => exact List.forall_mem_cons.2 ⟨present, ih⟩

theorem fits (cuts : Cuts front tokens segments)
    {before after : List Segment} {segment : Segment} (split : segments = before ++ segment :: after) :
    segment.Fits (front ++ tokens) (front.length + (before.flatMap Segment.own).length) := by
  induction cuts generalizing before with
  | done => simp at split
  | @statement front own rest segments stmt present reads later ih =>
    cases before with
    | nil =>
      obtain ⟨rfl, -⟩ := List.cons.inj split
      exact reads
    | cons first before =>
      obtain ⟨rfl, behind⟩ := List.cons.inj split
      simpa only [List.flatMap_cons, Segment.own, List.length_append, List.append_assoc, Nat.add_assoc] using ih behind
  | @fault front taken skipped rest segments error present moves fails least later ih =>
    cases before with
    | nil =>
      obtain ⟨rfl, -⟩ := List.cons.inj split
      exact fits_fault fails least
    | cons first before =>
      obtain ⟨rfl, behind⟩ := List.cons.inj split
      simpa only [List.flatMap_cons, Segment.own, List.length_append, List.append_assoc, Nat.add_assoc] using ih behind

theorem nil (cuts : Cuts front [] segments) : segments = [] := by
  cases segments with
  | nil => rfl
  | cons segment segments =>
    have whole := cuts.flatMap_own
    have present := cuts.own_ne_nil segment (by simp)
    simp_all

/-- An error is found behind the first token, if that token opens a statement. -/
theorem found_bound (cuts : Cuts front tokens segments)
    {found : Nat} (member : found ∈ segments.filterMap Segment.found?) :
    front.length ≤ found ∧ ∀ token ∈ tokens.head?, token.opensStmt → front.length < found := by
  induction cuts with
  | done => simp at member
  | @statement front own rest segments stmt present reads later ih =>
    obtain ⟨bound, -⟩ := ih member
    have positive := List.length_pos_iff.2 present
    rw [List.length_append] at bound
    exact ⟨by omega, fun _ _ _ => by omega⟩
  | @fault front taken skipped rest segments error present moves fails least later ih =>
    have positive := List.length_pos_iff.2 present
    rcases List.mem_cons.1 member with rfl | member
    · refine ⟨Nat.le_add_right .., fun token head opens => ?_⟩
      rw [← List.append_assoc, List.head?_append_of_ne_nil _ present] at head
      have taken := List.length_pos_iff.2 (moves token head opens)
      omega
    · obtain ⟨bound, -⟩ := ih member
      rw [List.length_append] at bound
      exact ⟨by omega, fun _ _ _ => by omega⟩

theorem found_increasing (cuts : Cuts front tokens segments) :
    (segments.filterMap Segment.found?).Pairwise (· < ·) := by
  induction cuts with
  | done => exact .nil
  | statement _ _ _ ih => exact ih
  | @fault front taken skipped rest segments error present moves fails least later ih =>
    refine .cons (fun found member => ?_) ih
    obtain ⟨bound, opened⟩ := later.found_bound member
    simp only [List.length_append] at bound opened
    cases skipped with
    | cons => simp only [List.length_cons] at bound; omega
    | nil =>
      -- Nothing is skipped, so the next piece starts with a word that opens a statement, if there is one.
      rcases least.1 with ending | ⟨token, head, opens⟩ | ⟨impossible, -⟩
      · obtain rfl : rest = [] := List.eq_nil_of_length_eq_zero ending.symm
        rw [later.nil] at member
        simp at member
      · exact opened token (by simpa [List.head?_eq_getElem?] using head) opens
      · exact absurd impossible (Nat.lt_irrefl 0)

theorem last_error (cuts : Cuts front tokens segments)
    (endless : Input.Endless tokens) {before after : List SyntaxError} {error : SyntaxError}
    (split : segments.filterMap Segment.error? = before ++ error :: after)
    (ending : error.found.kind = .endOfInput) : after = [] := by
  induction cuts generalizing before with
  | done => simp at split
  | statement _ _ _ ih => exact ih (fun token member => endless token (by simp [member])) split
  | @fault front taken skipped rest segments first present moves fails least later ih =>
    cases before with
    | nil =>
      obtain ⟨rfl, behind⟩ := List.cons.inj split
      obtain ⟨-, found, -⟩ := Input.parse_eq_error_iff.1 fails
      cases ahead : skipped ++ rest with
      | nil =>
        obtain ⟨-, rfl⟩ := List.append_eq_nil_iff.1 ahead
        rw [← behind, later.nil]
        rfl
      | cons token others =>
        have real := endless token (by simp [ahead])
        rw [ahead] at found
        exact absurd ending (by rw [found]; exact real)
    | cons other before =>
      obtain ⟨-, behind⟩ := List.cons.inj split
      exact ih (fun token member => endless token (by simp [member])) behind

theorem length_le (cuts : Cuts front tokens segments) :
    (segments.filterMap Segment.error?).length + (segments.filterMap Segment.stmt?).length ≤ tokens.length := by
  induction cuts with
  | done => exact Nat.le_refl _
  | statement present _ _ ih =>
    have positive := List.length_pos_iff.2 present
    simp only [List.filterMap_cons, Segment.error?, Segment.stmt?, List.length_cons, List.length_append]
    omega
  | fault present _ _ _ _ ih =>
    have positive := List.length_pos_iff.2 present
    simp only [List.filterMap_cons, Segment.error?, Segment.stmt?, List.length_cons, List.length_append] at positive ⊢
    omega

end Cuts
end Program

namespace Input

theorem stop_append {front tokens : List Token} (endless : Endless (front ++ tokens)) (present : tokens ≠ []) :
    (ofTokens (front ++ tokens)).stop = (ofTokens tokens).stop := by
  have endless' : Endless tokens := fun token member => endless token (List.mem_append_right front member)
  have ahead := ahead_ofTokens endless
  have ahead' := ahead_ofTokens endless'
  have final := List.getLast?_eq_some_getLast present
  simp only [ofTokens] at ahead ahead' ⊢
  rw [ahead, ahead', find_endOfInput_eq_none endless, find_endOfInput_eq_none endless', List.getLast?_append, final]
  rfl

end Input

namespace Program

/-- What is given up because of a fault: the tokens in front of the one that was found, and those skipped. A fault
in front of the first token leaves a token there that opens no statement. -/
theorem exists_given_up {token : Token} {rest after : List Token} {fault : Fault}
    (fails : statement.read (token :: rest) = .error fault after) :
    ∃ taken skipped, token :: rest = taken ++ (skipped ++ resume after) ∧ after = skipped ++ resume after ∧
      taken ++ skipped ≠ [] ∧ (∀ first ∈ (taken ++ skipped).head?, first.opensStmt → taken ≠ []) ∧
      IsLeast {stop | Boundary (skipped ++ resume after) 0 stop} skipped.length := by
  have forward := statement.forward (token :: rest)
  rw [fails] at forward
  obtain ⟨taken, same⟩ := forward
  change taken ++ after = token :: rest at same
  obtain ⟨skipped, split, least⟩ := isLeast_resume after
  have whole : token :: rest = taken ++ (skipped ++ resume after) := by rw [← split, same]
  have present : taken ++ skipped ≠ [] := by
    have shorter := resume_shorter fails
    intro empty
    rw [whole, ← List.append_assoc, empty, List.nil_append] at shorter
    omega
  have moves : ∀ first ∈ (taken ++ skipped).head?, first.opensStmt → taken ≠ [] := by
    rintro first head opens rfl
    have start : (token :: rest).head? = some first := by
      rwa [whole, ← List.append_assoc, List.head?_append_of_ne_nil _ present]
    obtain rfl : token = first := Option.some.inj start
    obtain rfl : after = token :: rest := same
    rcases Stmt.statement_fails fails with shorter | ⟨-, opensNone⟩
    · rw [List.length_cons] at shorter
      omega
    · exact absurd opens (by simp [opensNone])
  rw [split] at least
  exact ⟨taken, skipped, whole, split, present, moves, least⟩

/-- Reading the tokens by themselves finds the same fault. -/
theorem parse_eq_error_of_read {front rest after : List Token} {token : Token} {fault : Fault}
    (endless : Input.Endless (front ++ token :: rest)) (fails : statement.read (token :: rest) = .error fault after) :
    (Input.ofTokens (token :: rest)).parse =
      (.error ⟨fault, after.headD (Input.ofTokens (front ++ token :: rest)).stop⟩,
        ⟨after, (Input.ofTokens (front ++ token :: rest)).stop⟩) := by
  have endless' : Input.Endless (token :: rest) := fun other member =>
    endless other (List.mem_append_right front member)
  have last := Input.stop_append endless (List.cons_ne_nil token rest)
  rw [last, Input.parse_eq_error_iff, Input.ahead_ofTokens endless']
  exact ⟨untilEnd_of_error fails [], rfl, rfl⟩

theorem parse_eq_ok_of_read {tokens rest : List Token} {stmt : Stmt} (endless : Input.Endless tokens)
    (reads : statement.read tokens = .ok stmt rest) :
    ∃ own, own ≠ [] ∧ tokens = own ++ rest ∧ (Input.ofTokens own).parse.1 = .ok [stmt] := by
  obtain ⟨derivation, rfl, -, levels, rfl⟩ := statement_eq_ok_iff.1 reads
  obtain ⟨first, others, head, -⟩ := derivation.exists_head
  have endless' : Input.Endless derivation.tokens := fun token member =>
    endless token (List.mem_append_left rest member)
  refine ⟨derivation.tokens, by simp [head], rfl, Input.parse_eq_ok_iff.2 ⟨[derivation], ?_, ?_, rfl⟩⟩
  · rw [Input.ahead_ofTokens endless', tokensOf, tokensOf, List.append_nil]
  · rwa [levelsOf, levelsOf, Nat.max_zero]

/-- What is read and what is found goes with the pieces of the input. -/
theorem exists_cuts (stop : Token) (before : List Stmt) (errors : List SyntaxError) (front tokens : List Token)
    (endless : Input.Endless (front ++ tokens)) (ending : (Input.ofTokens (front ++ tokens)).stop = stop) :
    ∃ segments, Cuts front tokens segments ∧ salvage stop before errors tokens =
      ⟨before.reverse ++ segments.filterMap Segment.stmt?, errors.reverse ++ segments.filterMap Segment.error?⟩ := by
  fun_induction salvage stop before errors tokens generalizing front with
  | case1 => exact ⟨[], .done front, by simp⟩
  | case2 before errors token rest next after outcome ih =>
    have endless' : Input.Endless (token :: rest) := fun other member =>
      endless other (List.mem_append_right front member)
    obtain ⟨own, present, same, reads⟩ := parse_eq_ok_of_read endless' outcome
    rw [same] at endless ending ⊢
    obtain ⟨segments, cuts, pieces⟩ := ih (front ++ own) (by simpa using endless) (by simpa using ending)
    refine ⟨_, .statement present reads cuts, ?_⟩
    simp [pieces, List.filterMap_cons, Segment.stmt?, Segment.error?]
  | case3 before errors token rest fault after outcome ih =>
    have fails := parse_eq_error_of_read endless outcome
    obtain ⟨taken, skipped, whole, split, present, moves, least⟩ := exists_given_up outcome
    rw [whole] at endless ending fails ⊢
    obtain ⟨segments, cuts, pieces⟩ := ih (front ++ (taken ++ skipped)) (by simpa using endless) (by simpa using ending)
    have fails : (Input.ofTokens (taken ++ (skipped ++ resume after))).parse = (.error ⟨fault, after.headD stop⟩,
        ⟨skipped ++ resume after, (Input.ofTokens (front ++ (taken ++ (skipped ++ resume after)))).stop⟩) := by
      rw [fails, ending, ← split]
    refine ⟨_, .fault present moves fails least cuts, ?_⟩
    rw [pieces]
    simp [List.filterMap_cons, Segment.stmt?, Segment.error?]

theorem salvage_of_ok {token : Token} {rest after : List Token} {next : Stmt}
    (reads : statement.read (token :: rest) = .ok next after) {stop : Token} {before : List Stmt}
    {errors : List SyntaxError} :
    salvage stop before errors (token :: rest) = salvage stop (next :: before) errors after := by
  rw [salvage]
  split <;> grind

theorem salvage_of_error {token : Token} {rest after : List Token} {fault : Fault}
    (fails : statement.read (token :: rest) = .error fault after) {stop : Token} {before : List Stmt}
    {errors : List SyntaxError} : salvage stop before errors (token :: rest) =
      salvage stop before (⟨fault, after.headD stop⟩ :: errors) (resume after) := by
  rw [salvage]
  split <;> grind

/-- What is read on the way to the end is derived, within the levels allowed, from tokens that stand there in this
order. -/
theorem exists_derivations_salvage (stop : Token) (before : List Stmt) (errors : List SyntaxError)
    (tokens : List Token) : ∃ derivations : List Stmt.Derivation,
      (salvage stop before errors tokens).program = before.reverse ++ stmtsOf derivations ∧
        (tokensOf derivations).Sublist tokens ∧ levelsOf derivations ≤ nestingLimit := by
  fun_induction salvage stop before errors tokens with
  | case1 before errors => exact ⟨[], (List.append_nil _).symm, .slnil, Nat.zero_le _⟩
  | case2 before errors token rest next after outcome ih =>
    obtain ⟨derivation, same, -, levels, rfl⟩ := statement_eq_ok_iff.1 outcome
    obtain ⟨derivations, program, inside, shallow⟩ := ih
    refine ⟨derivation :: derivations, ?_, ?_, Nat.max_le.2 ⟨levels, shallow⟩⟩
    · rw [program, List.reverse_cons, List.append_assoc, List.singleton_append, stmtsOf]
    · rw [same, tokensOf]
      exact (List.Sublist.refl _).append inside
  | case3 before errors token rest fault after outcome ih =>
    have forward := statement.forward (token :: rest)
    rw [outcome] at forward
    obtain ⟨derivations, program, inside, shallow⟩ := ih
    exact ⟨derivations, program, inside.trans ((resume_suffix after).trans forward).sublist, shallow⟩

/-- The same of a program that is read at all, to the first error or on behind it. -/
theorem exists_derivations_of_read {input : Input} {program : Program}
    (read : input.parse.1 = .ok program ∨ input.recover.1.program = program) : ∃ derivations : List Stmt.Derivation,
      stmtsOf derivations = program ∧ (tokensOf derivations).Sublist input.ahead ∧
        levelsOf derivations ≤ nestingLimit := by
  rcases read with read | rfl
  · obtain ⟨derivations, same, shallow, value⟩ := Input.parse_eq_ok_iff.1 read
    exact ⟨derivations, value, same ▸ List.Sublist.refl _, shallow⟩
  · obtain ⟨derivations, value, inside, shallow⟩ := exists_derivations_salvage input.stop [] [] input.ahead
    exact ⟨derivations, value.symm, inside, shallow⟩

/-- An error finds one of the tokens, or that there are no more. -/
theorem found_of_mem_salvage {stop : Token} {before : List Stmt} {errors : List SyntaxError} {tokens : List Token}
    {error : SyntaxError} (member : error ∈ (salvage stop before errors tokens).errors) :
    error ∈ errors ∨ error.found ∈ tokens ∨ tokens ≠ [] ∧ error.found = stop := by
  fun_induction salvage stop before errors tokens with
  | case1 before errors => exact .inl (List.mem_reverse.1 member)
  | case2 before errors token rest next after outcome ih =>
    have forward := statement.forward (token :: rest)
    rw [outcome] at forward
    rcases ih member with earlier | real | ⟨-, ending⟩
    · exact .inl earlier
    · exact .inr (.inl (forward.subset real))
    · exact .inr (.inr ⟨List.cons_ne_nil token rest, ending⟩)
  | case3 before errors token rest fault after outcome ih =>
    have forward := statement.forward (token :: rest)
    rw [outcome] at forward
    rcases ih member with here | real | ⟨-, ending⟩
    · rcases List.mem_cons.1 here with rfl | earlier
      · cases after with
        | nil => exact .inr (.inr ⟨List.cons_ne_nil token rest, rfl⟩)
        | cons found after => exact .inr (.inl (forward.subset List.mem_cons_self))
      · exact .inl earlier
    · exact .inr (.inl (forward.subset ((resume_suffix after).subset real)))
    · exact .inr (.inr ⟨List.cons_ne_nil token rest, ending⟩)

/-- The pieces make up the input, and what is read and found is what they hold, in order. So there are no more of
these than tokens, errors are found one behind the other, and only the last can be at the end. -/
theorem recover_cuts {tokens : List Token} (endless : Input.Endless tokens) :
    ∃ segments : List Segment,
      segments.flatMap Segment.own = tokens ∧
      (∀ segment ∈ segments, segment.own ≠ []) ∧
      (∀ before segment after, segments = before ++ segment :: after →
        segment.Fits tokens (before.flatMap Segment.own).length) ∧
      (Input.ofTokens tokens).recover.1.program = segments.filterMap Segment.stmt? ∧
      (Input.ofTokens tokens).recover.1.errors = segments.filterMap Segment.error? ∧
      (Input.ofTokens tokens).recover.1.errors.length + (Input.ofTokens tokens).recover.1.program.length ≤
        tokens.length ∧
      (segments.filterMap Segment.found?).Pairwise (· < ·) ∧
      ∀ before error after, (Input.ofTokens tokens).recover.1.errors = before ++ error :: after →
        error.found.kind = .endOfInput → after = [] := by
  obtain ⟨segments, cuts, pieces⟩ := exists_cuts (Input.ofTokens tokens).stop [] [] [] tokens endless rfl
  have recovered : (Input.ofTokens tokens).recover.1 =
      ⟨segments.filterMap Segment.stmt?, segments.filterMap Segment.error?⟩ := by
    rw [Input.recover, Input.ahead_ofTokens endless]
    exact pieces
  rw [recovered]
  refine ⟨segments, cuts.flatMap_own, cuts.own_ne_nil, ?_, rfl, rfl, cuts.length_le, cuts.found_increasing, ?_⟩
  · intro before segment after split
    simpa using cuts.fits split
  · intro before error after split ending
    exact cuts.last_error endless split ending

/-- A semicolon too many, and a statement behind it. -/
theorem recover_cuts_semicolon :
    let word : Token := ⟨.keyword, "return", ⟨1, 2⟩⟩
    let name : Token := ⟨.identifier, "a", ⟨1, 9⟩⟩
    let semicolon : Token := ⟨.semicolon, ";", ⟨1, 10⟩⟩
    Input.Endless [semicolon, word, name, semicolon] ∧
      ∃ segments : List Segment, segments.flatMap Segment.own = [semicolon, word, name, semicolon] ∧
        segments.filterMap Segment.stmt? = [.returnValue (.leaf name) word.location] ∧
        segments.filterMap Segment.error? = [⟨⟨.statement, .statement⟩, semicolon⟩] := by
  intro word name semicolon
  have endless : Input.Endless [semicolon, word, name, semicolon] := by
    simp [Input.Endless, word, name, semicolon]
  have recovered : (Input.ofTokens [semicolon, word, name, semicolon]).recover.1 =
      ⟨[.returnValue (.leaf name) word.location], [⟨⟨.statement, .statement⟩, semicolon⟩]⟩ := by
    rw [Input.recover, Input.ahead_ofTokens endless]
    have fails : statement.read [semicolon, word, name, semicolon] =
      .error ⟨.statement, .statement⟩ [semicolon, word, name, semicolon] := rfl
    let value : Expr.Derivation .whole :=
      .single (.single (.single (.single (.single (.single (.leaf ⟨name, .inr (.inl rfl)⟩))))))
    have reads : statement.read [word, name, semicolon] = .ok (.returnValue (.leaf name) word.location) [] :=
      statement_eq_ok_iff.2 ⟨.returnValue ⟨word, rfl⟩ ⟨value, ⟨semicolon, rfl⟩⟩, rfl, trivial, by decide, rfl⟩
    have resumed : resume [semicolon, word, name, semicolon] = [word, name, semicolon] := by
      simp [resume, Token.opensStmt, Token.keyword?, semicolon]
    rw [salvage_of_error fails, resumed, salvage_of_ok reads, salvage]
    rfl
  obtain ⟨segments, same, -, -, program, errors, -⟩ := recover_cuts endless
  rw [recovered] at program errors
  exact ⟨endless, segments, same, program.symm, errors.symm⟩

end Program
end ScriptLens
