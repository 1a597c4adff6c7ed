import Mathlib.Data.List.Basic
import StoreAudit.Scan.Range
import StoreAudit.Proofs.Git.Query

/-!
# Which part of history is named

An argument is one expression or, around its first two dots, the expressions of a range. What the
arguments come to is settled by what the resolver answers for these expressions (`Resolves`). Git is
asked for no expression that it could take for an option, whichever side of a range it stands on
(`ScanRange.resolve_of_arguments`).
-/

namespace StoreAudit

open Audit

namespace RefResolver

/-- The resolver with this failure, asked for one thing or another. -/
def FailsWith (resolver : RefResolver) (session : Session) (failure : Failure) : Prop :=
  (resolver.current session).1 = .error failure ∨
    ∃ expressions, (resolver.resolveAll expressions session).1 = .error failure

/-- The resolver that asks in place of git whoever is given. -/
def asking (ask : List Bytes → Audit (Int × Bytes)) : RefResolver where
  current := Repository.resolveBy ask (ascii "HEAD")
  resolveAll := fun expressions => expressions.mapM (Repository.resolveBy ask)

private theorem resolver_eq_asking (repository : Repository) :
    repository.resolver = asking repository.tryRun := rfl

private theorem kind_of_failsWith {resolver : RefResolver} {session : Session} {failure : Failure}
    {kind : FailureKind} (current : resolver.current.FailsFor fun failure => failure.kind = kind)
    (all : ∀ expressions,
      (resolver.resolveAll expressions).FailsFor fun failure => failure.kind = kind)
    (fails : resolver.FailsWith session failure) : failure.kind = kind := by
  rcases fails with failed | ⟨expressions, failed⟩
  · exact current session failure _ (Prod.ext failed rfl)
  · exact all expressions session failure _ (Prod.ext failed rfl)

/-- Git fails only for refs that it does not know, unless the system refuses to start it. -/
theorem reason_of_resolver {repository : Repository} {session : Session} {failure : Failure}
    (fails : repository.resolver.FailsWith session failure) :
    failure.kind = .coded .badRef ∨ ¬ session.Unrefused ∧ failure.OfStart := by
  rcases fails with failed | ⟨expressions, failed⟩
  · exact Repository.resolve_eq_error failed
  · have looped : expressions.mapM repository.resolve session =
        (.error failure, (expressions.mapM repository.resolve session).2) := Prod.ext failed rfl
    obtain ⟨expression, -, before, after, stays, refused⟩ :=
      mapM_eq_error repository.staysUnrefused_resolve looped
    refine (Repository.resolve_eq_error (congrArg Prod.fst refused)).imp_right ?_
    exact And.imp_left (mt stays)

/-- A fixed list fails only for refs that it does not hold. -/
theorem kind_of_ofList {refs : List (Bytes × Bytes)} {lost : Nat} {session : Session}
    {failure : Failure} (fails : (ofList refs lost).FailsWith session failure) :
    failure.kind = .coded .badRef := by
  have find (expression : Bytes) :
      (ofList.find refs expression).FailsFor fun failure => failure.kind = .coded .badRef := by
    unfold ofList.find
    split
    · exact failsFor_pure _
    · exact failsFor_throw rfl
  exact kind_of_failsWith (find _)
    (fun _ => .bind (.mapM find _) fun _ => failsFor_pure _) fails

end RefResolver

namespace ScanRange

/-- The expressions that an argument is made of, in order: what stands before and after its first
two dots, so far as something stands there, or the argument as a whole. -/
inductive MadeOf : Bytes → List Bytes → Prop
  | whole {argument : Bytes} : ¬ dots <:+: argument → MadeOf argument [argument]
  | both {argument first second : Bytes} : Bytes.FirstCut dots argument first second →
      first ≠ [] → second ≠ [] → MadeOf argument [first, second]
  | start {argument first : Bytes} : Bytes.FirstCut dots argument first [] → first ≠ [] →
      MadeOf argument [first]
  | stop {argument second : Bytes} : Bytes.FirstCut dots argument [] second → second ≠ [] →
      MadeOf argument [second]
  | nothing : MadeOf dots []

private theorem firstCut_dots_iff {argument : Bytes} :
    Bytes.FirstCut dots argument [] [] ↔ argument = dots := by
  constructor
  · exact fun cut => by simpa using cut.whole
  · rintro rfl
    exact ⟨rfl, fun _ _ _ => Nat.zero_le _⟩

private theorem madeOf_expressions (argument : Bytes) : MadeOf argument (expressions argument) := by
  unfold expressions
  split
  · rename_i first second cut
    rw [Bytes.splitFirst_eq_some_iff_firstCut] at cut
    by_cases noFirst : first = [] <;> by_cases noSecond : second = []
    · subst noFirst noSecond
      rw [firstCut_dots_iff.mp cut]
      exact .nothing
    · subst noFirst
      simpa [noSecond] using MadeOf.stop cut noSecond
    · subst noSecond
      simpa [noFirst] using MadeOf.start cut noFirst
    · simpa [noFirst, noSecond] using MadeOf.both cut noFirst noSecond
  · rename_i uncut
    refine .whole fun inside => ?_
    have cut := Bytes.mentions_iff.mpr inside
    rw [Bytes.mentions, uncut] at cut
    cases cut

private theorem madeOf_iff {argument : Bytes} {parts : List Bytes} :
    MadeOf argument parts ↔ expressions argument = parts := by
  refine ⟨fun made => ?_, fun same => same ▸ madeOf_expressions argument⟩
  have divided {first second : Bytes} (cut : Bytes.FirstCut dots argument first second) :
      expressions argument = [first, second].filter fun expression => !expression.isEmpty := by
    rw [expressions, Bytes.splitFirst_eq_some_iff_firstCut.mpr cut]
  cases made with
  | whole undivided =>
      have uncut : Bytes.splitFirst dots argument = none := by
        rw [← Option.not_isSome_iff_eq_none]
        exact fun cut => undivided (Bytes.mentions_iff.mp cut)
      rw [expressions, uncut]
  | both cut first second => simp [divided cut, first, second]
  | start cut first => simp [divided cut, first]
  | stop cut second => simp [divided cut, second]
  | nothing => exact divided (firstCut_dots_iff.mpr rfl)

/-- Only the first two dots count, even where a third one follows. -/
example : expressions (ascii "a...b") = [ascii "a", ascii ".b"] := by decide

/-- What arguments come to with a resolver that is asked in a session. -/
inductive Resolves (resolver : RefResolver) (session : Session) :
    List Bytes → Except Failure ScanRange → Prop
  | current {stop : Bytes} : (resolver.current session).1 = .ok stop →
      Resolves resolver session [] (.ok { start := [], stop, useIndex := true })
  | one {argument expression stop : Bytes} : MadeOf argument [expression] →
      (resolver.resolveAll [expression] session).1 = .ok [stop] →
      Resolves resolver session [argument] (.ok { start := [], stop, useIndex := false })
  | both {argument first second start stop : Bytes} : MadeOf argument [first, second] →
      (resolver.resolveAll [first, second] session).1 = .ok [start, stop] →
      Resolves resolver session [argument] (.ok { start, stop, useIndex := false })
  | noCurrent {failure : Failure} : (resolver.current session).1 = .error failure →
      Resolves resolver session [] (.error failure)
  | noExpression : Resolves resolver session [dots] (.error (.invalidRef dots))
  | unresolved {argument : Bytes} {parts : List Bytes} {failure : Failure} :
      MadeOf argument parts → parts ≠ [] →
      (resolver.resolveAll parts session).1 = .error failure →
      Resolves resolver session [argument] (.error failure)
  | miscounted {argument : Bytes} {parts commits : List Bytes} : MadeOf argument parts →
      parts ≠ [] → (resolver.resolveAll parts session).1 = .ok commits →
      commits.length ≠ parts.length →
      Resolves resolver session [argument] (.error (.unresolvedRef argument))
  | tooMany {first second : Bytes} {rest : List Bytes} :
      Resolves resolver session (first :: second :: rest) (.error .tooManyRefs)

variable {resolver : RefResolver} {session : Session} {argument : Bytes} {parts : List Bytes}

private theorem resolve_nil_apply (resolver : RefResolver) (session : Session) :
    (resolve [] resolver session).1 =
      (resolver.current session).1.map fun stop => { start := [], stop, useIndex := true } := by
  rw [resolve, bind_apply]
  rcases resolver.current session with ⟨_ | _, _⟩ <;> rfl

private theorem resolve_dots (resolver : RefResolver) :
    resolve [dots] resolver = throw (.invalidRef dots) := by
  rw [resolve, madeOf_iff.mp .nothing]
  rfl

/-- The range between commits that were asked for in an argument. -/
def between : List Bytes → ScanRange
  | [start, stop] => { start, stop }
  | stop :: _ => { stop }
  | [] => { stop := [] }

private theorem resolve_singleton_apply (made : MadeOf argument parts) (asked : parts ≠ []) :
    (resolve [argument] resolver session).1 =
      match (resolver.resolveAll parts session).1 with
      | .error failure => .error failure
      | .ok commits =>
        if commits.length ≠ parts.length then .error (.unresolvedRef argument)
        else .ok (between commits) := by
  rw [resolve, madeOf_iff.mp made]
  simp only [List.isEmpty_iff, asked, if_false]
  rw [bind_apply]
  rcases resolver.resolveAll parts session with ⟨failure | commits, after⟩
  · rfl
  · dsimp only
    split <;> rfl

private theorem resolves_resolve (resolver : RefResolver) (session : Session)
    (arguments : List Bytes) :
    Resolves resolver session arguments (resolve arguments resolver session).1 := by
  match arguments with
  | [] =>
      rw [resolve_nil_apply]
      cases told : (resolver.current session).1 with
      | error failure => exact .noCurrent told
      | ok stop => exact .current told
  | [argument] =>
      have made := madeOf_expressions argument
      by_cases asked : expressions argument = []
      · rw [asked] at made
        cases made
        rw [resolve_dots]
        exact .noExpression
      rw [resolve_singleton_apply made asked]
      cases told : (resolver.resolveAll (expressions argument) session).1 with
      | error failure => exact .unresolved made asked told
      | ok commits =>
          by_cases counted : commits.length = (expressions argument).length
          · simp only [counted, ne_eq, not_true_eq_false, if_false]
            generalize expressions argument = parts at *
            match parts, commits, counted with
            | [expression], [stop], _ => exact .one made told
            | [first, second], [start, stop], _ => exact .both made told
            | _ :: _ :: _ :: _, _, _ => cases made
          · simp only [counted, ne_eq, not_false_eq_true, if_true]
            exact .miscounted made asked told counted
  | first :: second :: rest => exact .tooMany

/-- The outcome is what the arguments come to, and nothing else. -/
theorem resolve_eq_iff {arguments : List Bytes} {outcome : Except Failure ScanRange} :
    (resolve arguments resolver session).1 = outcome ↔
      Resolves resolver session arguments outcome := by
  refine ⟨fun same => same ▸ resolves_resolve resolver session arguments, fun resolves => ?_⟩
  cases resolves with
  | current told | noCurrent told =>
      rw [resolve_nil_apply, told]
      rfl
  | one made told | both made told =>
      rw [resolve_singleton_apply made (by simp), told]
      rfl
  | noExpression => rw [resolve_dots]; rfl
  | unresolved made asked told => rw [resolve_singleton_apply made asked, told]
  | miscounted made asked told miscounted =>
      rw [resolve_singleton_apply made asked, told]
      exact if_pos miscounted
  | tooMany => rfl

/-- With at most one argument, what fails is the resolver, or a ref is bad. -/
theorem Resolves.kind {arguments : List Bytes} {failure : Failure}
    (resolves : Resolves resolver session arguments (.error failure))
    (few : arguments.length ≤ 1) :
    resolver.FailsWith session failure ∨ failure.kind = .coded .badRef := by
  cases resolves with
  | noCurrent failed => exact .inl (.inl failed)
  | unresolved _ _ failed => exact .inl (.inr ⟨_, failed⟩)
  | noExpression | miscounted _ _ _ _ => exact .inr rfl
  | tooMany => simp at few

/-- No range is named where git could take one of its expressions for an option. -/
theorem resolve_of_not_isAskable {repository : Repository} (made : MadeOf argument parts)
    (refused : ∃ part ∈ parts, ¬ Repository.IsAskable part) (session : Session) :
    ∃ failure, (failure.kind = .coded .badRef ∨ ¬ session.Unrefused ∧ failure.OfStart) ∧
      (resolve [argument] repository.resolver session).1 = .error failure := by
  cases outcome : (resolve [argument] repository.resolver session).1 with
  | error failure =>
      refine ⟨failure, ?_, rfl⟩
      rcases (resolve_eq_iff.mp outcome).kind (Nat.le_refl 1) with failed | bad
      · exact RefResolver.reason_of_resolver failed
      · exact .inl bad
  | ok range =>
      obtain ⟨part, member, unaskable⟩ := refused
      have asked : parts ≠ [] := List.ne_nil_of_mem member
      rw [resolve_singleton_apply made asked] at outcome
      cases told : (repository.resolver.resolveAll parts session).1 with
      | error failure =>
          rw [told] at outcome
          cases outcome
      | ok commits =>
          have collected : parts.mapM repository.resolve session =
              (.ok commits, (parts.mapM repository.resolve session).2) := Prod.ext told rfl
          obtain ⟨-, each⟩ := mapM_eq_ok collected
          obtain ⟨before, value, after, resolved⟩ := each part member
          rw [Repository.resolve_eq_resolveBy,
            Repository.resolveBy_of_not_isAskable unaskable] at resolved
          cases resolved

/-- Arguments come to what `Resolves` says, with any resolver. Nobody is asked where there are two
or more of them, or nothing but two dots. With at most one argument, a failure is the resolver's
own, which is passed on as it is, or that of a bad ref. All that git fails with is that of a bad ref
too, unless the system refuses to start it, and so is all that a list of refs fails with. Git is
asked only for expressions that it cannot mistake: whoever is asked in its place and agrees with it
on these makes no difference, and an argument with another expression on either side is a bad ref.
-/
theorem resolve_of_arguments (arguments : List Bytes) (resolver : RefResolver)
    (repository : Repository) (session : Session) :
    (∀ outcome, (resolve arguments resolver session).1 = outcome ↔
      Resolves resolver session arguments outcome) ∧
    (2 ≤ arguments.length → ∃ failure, failure.kind = .coded .invalidArguments ∧
      resolve arguments resolver = throw failure) ∧
    (arguments = [dots] → ∃ failure, failure.kind = .coded .badRef ∧
      resolve arguments resolver = throw failure) ∧
    (∀ failure, arguments.length ≤ 1 → (resolve arguments resolver session).1 = .error failure →
      resolver.FailsWith session failure ∨ failure.kind = .coded .badRef) ∧
    (∀ failure, repository.resolver.FailsWith session failure →
      failure.kind = .coded .badRef ∨ ¬ session.Unrefused ∧ failure.OfStart) ∧
    (∀ refs lost failure, (RefResolver.ofList refs lost).FailsWith session failure →
      failure.kind = .coded .badRef) ∧
    (∀ ask, (∀ expression, Repository.IsAskable expression →
        ask (Repository.commitCommand expression) =
          repository.tryRun (Repository.commitCommand expression)) →
      resolve arguments (.asking ask) = resolve arguments repository.resolver) ∧
    ∀ argument parts, arguments = [argument] → MadeOf argument parts →
      (∃ part ∈ parts, ¬ Repository.IsAskable part) →
      ∃ failure, (failure.kind = .coded .badRef ∨ ¬ session.Unrefused ∧ failure.OfStart) ∧
        (resolve arguments repository.resolver session).1 = .error failure := by
  refine ⟨fun _ => resolve_eq_iff, fun many => ?_, ?_, fun failure few failed => ?_,
    fun _ => RefResolver.reason_of_resolver, fun _ _ _ => RefResolver.kind_of_ofList,
    fun ask agree => ?_, ?_⟩
  · match arguments, many with
    | _ :: _ :: _, _ => exact ⟨.tooManyRefs, rfl, rfl⟩
  · rintro rfl
    exact ⟨.invalidRef dots, rfl, resolve_dots resolver⟩
  · exact (resolve_eq_iff.mp failed).kind few
  · rw [RefResolver.resolver_eq_asking, RefResolver.asking, Repository.resolveBy_congr agree]
    rfl
  · rintro argument parts rfl made refused
    exact resolve_of_not_isAskable made refused session

/-- A repository that knows one ref. -/
def sampleHistory : Repository where
  directory := ascii "."
  transcript :=
    { calls :=
        [{ arguments := Repository.commitCommand (ascii "main"), output := ascii "1a2b\n" }] }

/-- Asks git, unless the last argument begins with a dash. -/
def askGuarded (command : List Bytes) : Audit (Int × Bytes) :=
  if (command.getLast?.bind List.head?) = some Ascii.dash then throw .notARepository
  else sampleHistory.tryRun command

/-- One side of a range, too many arguments, the dots alone, refs that nobody knows, and an
expression that looks like an option. -/
theorem resolve_of_sampleHistory :
    let resolver := sampleHistory.resolver
    Resolves resolver {} [ascii "..main"]
      (.ok { start := [], stop := ascii "1a2b", useIndex := false }) ∧
    (∃ failure, failure.kind = .coded .invalidArguments ∧
      resolve [ascii "main", ascii "main"] resolver = throw failure) ∧
    (∃ failure, failure.kind = .coded .badRef ∧ resolve [ascii ".."] resolver = throw failure) ∧
    (resolver.FailsWith {} (.invalidRef (ascii "HEAD")) ∧
      ((Failure.invalidRef (ascii "HEAD")).kind = .coded .badRef ∨
        ¬ Session.Unrefused {} ∧ (Failure.invalidRef (ascii "HEAD")).OfStart)) ∧
    ((RefResolver.ofList [] 0).FailsWith {} (.unknownRef (ascii "HEAD")) ∧
      (Failure.unknownRef (ascii "HEAD")).kind = .coded .badRef) ∧
    (resolve [ascii "nowhere"] resolver {}).1 = .error (.invalidRef (ascii "nowhere")) ∧
    (resolver.FailsWith {} (.invalidRef (ascii "nowhere")) ∨
      (Failure.invalidRef (ascii "nowhere")).kind = .coded .badRef) ∧
    resolve [ascii "main..--all"] (.asking askGuarded) =
      resolve [ascii "main..--all"] resolver ∧
    ∃ failure, (failure.kind = .coded .badRef ∨ ¬ Session.Unrefused {} ∧ failure.OfStart) ∧
      (resolve [ascii "main..--all"] resolver {}).1 = .error failure := by
  intro resolver
  have whole (arguments : List Bytes) := resolve_of_arguments arguments resolver sampleHistory {}
  have nowhere : (resolve [ascii "nowhere"] resolver {}).1 =
      .error (.invalidRef (ascii "nowhere")) := by decide +kernel
  have noHead : resolver.FailsWith {} (.invalidRef (ascii "HEAD")) := .inl (by decide +kernel)
  have noRef : (RefResolver.ofList [] 0).FailsWith {} (.unknownRef (ascii "HEAD")) := .inl rfl
  have guarded (expression : Bytes) (askable : Repository.IsAskable expression) :
      askGuarded (Repository.commitCommand expression) =
        sampleHistory.tryRun (Repository.commitCommand expression) := by
    obtain ⟨nonempty, noDash⟩ := askable
    obtain ⟨byte, rest, rfl⟩ := List.exists_cons_of_ne_nil nonempty
    rw [askGuarded, if_neg]
    simpa [Repository.commitCommand] using noDash
  have made : MadeOf (ascii "main..--all") [ascii "main", ascii "--all"] :=
    madeOf_iff.mpr (by decide)
  have option : ¬ Repository.IsAskable (ascii "--all") := fun askable => askable.2 (by decide)
  obtain ⟨one, -⟩ := whole [ascii "..main"]
  obtain ⟨-, many, -⟩ := whole [ascii "main", ascii "main"]
  obtain ⟨-, -, onlyDots, -⟩ := whole [dots]
  obtain ⟨-, -, -, fails, gitFails, listFails, -⟩ := whole [ascii "nowhere"]
  obtain ⟨-, -, -, -, -, -, agrees, refuses⟩ := whole [ascii "main..--all"]
  exact ⟨(one _).mp (by decide +kernel), many (Nat.le_refl 2), onlyDots rfl,
    ⟨noHead, gitFails _ noHead⟩, ⟨noRef, listFails [] 0 _ noRef⟩, nowhere,
    fails _ (Nat.le_refl 1) nowhere, agrees _ guarded,
    refuses _ _ rfl made ⟨_, List.mem_cons_of_mem _ List.mem_cons_self, option⟩⟩

/-- A failure to start git is passed on as what it is, and dots that are more than two are no bad
ref as such: behind the first two stands an expression like any other. -/
theorem resolve_passes_failures_on :
    let refused : Session := { spawns := [{ refusal := some (.fork, ⟨11⟩) }] }
    (resolve [] sampleHistory.resolver refused).1 = .error (.inCall (ascii "fork") ⟨11⟩) ∧
      (Failure.inCall (ascii "fork") ⟨11⟩).kind ≠ .coded .badRef ∧
      (resolve [ascii "...."] (.ofList [(ascii "..", ascii "1a2b")] 0) {}).1 =
        .ok { start := [], stop := ascii "1a2b", useIndex := false } := by
  refine ⟨?_, nofun, ?_⟩ <;> decide +kernel

end ScanRange

end StoreAudit
