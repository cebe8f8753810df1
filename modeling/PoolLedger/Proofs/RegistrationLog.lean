import PoolLedger.Proofs.BooksRefinement
import PoolLedger.Proofs.DerivedAddresses
import PoolLedger.Proofs.RegistryBooks
import PoolLedger.Proofs.RunHistory

/-!
# What is registered in a run

A domain, a token or a pool is registered by the first action that succeeds for
it, and it stays registered.  So nothing is registered twice in a run, and whoever
has claimed a domain is reported as its owner from then on.
-/

namespace PoolLedger

open Batch

namespace Address

/-- The address of the pool of an unordered pair of tokens. -/
def ofPair : Sym2 Address → Address :=
  Sym2.lift ⟨ofPool, ofPool_comm⟩

end Address

/-- What an action may register. -/
inductive Subject where
  | domain (name : String)
  | token (name symbol metadata : Bytes)
  /-- The pool of an unordered pair of tokens. -/
  | pool (tokens : Sym2 Address)
deriving DecidableEq

/-- What an action registers if it succeeds. -/
def Action.subject? : Action → Option Subject
  | claimDomain domain => some (.domain domain)
  | createToken name symbol metadata _ => some (.token name symbol metadata)
  | createLiquidityPool _ tokenX tokenY _ => some (.pool s(tokenX, tokenY))
  | transfer .. | hi .. | whois .. | getTokenAddress .. => none

theorem Action.eq_claimDomain {action : Action} {domain : String}
    (isDomain : action.subject? = some (.domain domain)) : action = .claimDomain domain := by
  cases action with
  | claimDomain name =>
      cases isDomain
      rfl
  | _ => cases isDomain

namespace Execution

/-- What was registered by an execution. -/
def registered? (execution : Execution) : Option Subject :=
  match execution.result with
  | .ok _ => execution.action.subject?
  | .error _ => none

theorem registered?_eq_some_iff {execution : Execution} {subject : Subject} :
    execution.registered? = some subject ↔
      (∃ output, execution.result = .ok output) ∧ execution.action.subject? = some subject := by
  rw [registered?]
  cases execution.result with
  | ok output => simp
  | error error => simp

/-- If the first one has claimed the domain that the second one looks up, the claimer is found. -/
def Informs (claim lookup : Execution) : Prop :=
  ∀ domain, claim.registered? = some (.domain domain) → lookup.action = .whois domain →
    lookup.result = .ok (.whois true claim.actor)

end Execution

/-- Everything that was registered, in the order of its registration. -/
def registeredIn (executions : List Execution) : List Subject :=
  executions.filterMap Execution.registered?

namespace Books

/-- The books have an entry for the subject. -/
def Holds (books : Books) : Subject → Prop
  | .domain name => (books.owner? name).isSome
  | .token name symbol metadata => (books.token? (.ofToken name symbol metadata)).isSome
  | .pool tokens => (books.pool? (.ofPair tokens)).isSome

variable {params : Params} {books : Books} {actor : Address} {action : Action} {subject : Subject}
  {output : Output}

theorem passes_of_answer (answer : (books.transition params actor action).1 = .ok output) :
    (∀ refusal ∈ books.refusals params actor action, refusal.applies = false) ∧
      books.enter actor action = (output, (books.transition params actor action).2) := by
  rw [transition, settle] at answer ⊢
  cases first : Refusal.first? (books.refusals params actor action) with
  | some error =>
      rw [first] at answer
      cases answer
  | none =>
      rw [first] at answer
      cases answer
      exact ⟨Refusal.first?_eq_none_iff.mp first, rfl⟩

/-- A subject is registered by an action only if it was not registered before. -/
theorem not_holds_of_answer (answer : (books.transition params actor action).1 = .ok output)
    (isSubject : action.subject? = some subject) : ¬ books.Holds subject := by
  obtain ⟨passes, _⟩ := passes_of_answer answer
  cases action with
  | claimDomain domain =>
      cases isSubject
      have free := passes ⟨(books.owner? domain).isSome, .domainAlreadyTaken domain⟩
        (by simp [refusals])
      simpa [Holds] using free
  | createToken name symbol metadata decimals =>
      cases isSubject
      have free := passes ⟨(books.token? (.ofToken name symbol metadata)).isSome,
        .tokenAlreadyExists (.ofToken name symbol metadata)⟩ (by simp [refusals])
      simpa [Holds] using free
  | createLiquidityPool functionId tokenX tokenY fee =>
      cases isSubject
      have free := passes ⟨(books.pool? (.ofPool tokenX tokenY)).isSome,
        .poolAlreadyExists (.ofPool tokenX tokenY)⟩ (by simp [refusals])
      simpa [Holds, Address.ofPair] using free
  | _ => cases isSubject

/-- An action that succeeds registers its subject. -/
theorem holds_of_answer (answer : (books.transition params actor action).1 = .ok output)
    (isSubject : action.subject? = some subject) :
    (books.transition params actor action).2.Holds subject := by
  obtain ⟨_, entered⟩ := passes_of_answer answer
  have after := congrArg Prod.snd entered
  rw [← after]
  cases action with
  | claimDomain domain =>
      cases isSubject
      simp [Holds, enter, owner?_setOwner]
  | createToken name symbol metadata decimals =>
      cases isSubject
      simp [Holds, enter, token?_setToken]
  | createLiquidityPool functionId tokenX tokenY fee =>
      cases isSubject
      simp [Holds, enter, Address.ofPair, pool?_setPool]
  | _ => cases isSubject

/-- A new entry takes none away. -/
theorem isSome_update {ι α : Type} [DecidableEq ι] {entries : ι → Option α} {other : ι}
    (held : (entries other).isSome) (name : ι) (value : α) :
    (Function.update entries name (some value) other).isSome := by
  rw [Function.update_apply]
  split
  · rfl
  · exact held

namespace Holds

theorem withBalance (held : books.Holds subject) (balance : Address → Amount) :
    Holds { books with balance } subject := by
  cases subject <;> exact held

theorem setOwner (held : books.Holds subject) (name : String) (owner : Address) :
    (books.setOwner name owner).Holds subject := by
  cases subject with
  | domain other => exact isSome_update held name owner
  | token name symbol metadata => exact held
  | pool tokens => exact held

theorem setToken (held : books.Holds subject) (token : Address) (record : TokenRecord) :
    (books.setToken token record).Holds subject := by
  cases subject with
  | domain name => exact held
  | token name symbol metadata => exact isSome_update held token record
  | pool tokens => exact held

theorem setPool (held : books.Holds subject) (pool : Address) (record : PoolRecord) :
    (books.setPool pool record).Holds subject := by
  cases subject with
  | domain name => exact held
  | token name symbol metadata => exact held
  | pool tokens => exact isSome_update held pool record

/-- What is registered stays registered. -/
theorem transition (held : books.Holds subject) (params : Params) (actor : Address)
    (action : Action) : (books.transition params actor action).2.Holds subject := by
  have registered := registration params actor action books
  generalize books.transition params actor action = outcome at registered
  cases registered with
  | nothing answer balance => exact held.withBalance balance
  | domain answer balance name owner notShort notLong =>
      exact (held.setOwner name owner).withBalance balance
  | token answer record checked fresh => exact held.setToken _ record
  | pool functionId tokenX tokenY fee feeTo charges hasX hasY known fresh =>
      exact (held.setToken _ _).setPool _ _

end Holds

theorem owner?_of_answer {domain : String}
    (answer : (books.transition params actor (.claimDomain domain)).1 = .ok output) :
    (books.transition params actor (.claimDomain domain)).2.owner? domain = some actor := by
  obtain ⟨_, entered⟩ := passes_of_answer answer
  rw [← congrArg Prod.snd entered]
  exact (owner?_setOwner _ domain actor domain).trans (if_pos rfl)

/-- Nobody takes the domain of another one. -/
theorem owner?_transition {domain : String} {owner : Address}
    (claimed : books.owner? domain = some owner) :
    (books.transition params actor action).2.owner? domain = some owner := by
  rw [transition, settle]
  cases first : Refusal.first? (books.refusals params actor action) with
  | some error => exact claimed
  | none =>
      have passes := Refusal.first?_eq_none_iff.mp first
      cases action with
      | transfer recipient value memo =>
          simp only [enter]
          split
          · exact claimed
          · exact claimed
      | claimDomain name =>
          have free := passes ⟨(books.owner? name).isSome, .domainAlreadyTaken name⟩
            (by simp [refusals])
          have ne : domain ≠ name := by
            rintro rfl
            simp [claimed] at free
          simp only [enter, owner?_setOwner, if_neg ne]
          exact claimed
      | hi name => exact claimed
      | whois name => exact claimed
      | createToken name symbol metadata decimals => exact claimed
      | getTokenAddress name symbol metadata => exact claimed
      | createLiquidityPool functionId tokenX tokenY fee => exact claimed

end Books

section Log

variable {params : Params} {store : Store} (wellFormed : store.WellFormed)

include wellFormed

theorem Action.answer_of_effect {actor : Address} {action : Action} {output : Output}
    (succeeded : (action.effect params actor store).1 = .ok output) :
    (store.books.transition params actor action).1 = .ok output := by
  have kept := Action.effect_keepsBooks wellFormed params actor action
  have answer := kept.answer.symm.trans succeeded
  cases reckoned : (store.books.transition params actor action).1 with
  | error error =>
      rw [reckoned] at answer
      cases answer
  | ok found =>
      rw [reckoned] at answer
      cases answer
      rfl

theorem Batch.Entry.keepsBooks (params : Params) (entry : Entry) :
    KeepsBooks store ((entry.effect params store).1, entry.after params store)
      ((store.books.transition params entry.actor entry.action).1.mapError .rejected,
        (store.books.transition params entry.actor entry.action).2) :=
  Action.effect_keepsBooks wellFormed params entry.actor entry.action

/-- What an entry registers is new to the books, and is in them afterwards. -/
theorem Batch.Entry.registers {entry : Entry} {subject : Subject}
    (registered : Execution.registered?
      ⟨entry.actor, entry.action, (entry.effect params store).1⟩ = some subject) :
    ¬ store.books.Holds subject ∧ (entry.after params store).books.Holds subject := by
  obtain ⟨⟨output, succeeded⟩, isSubject⟩ := Execution.registered?_eq_some_iff.mp registered
  have answer := Action.answer_of_effect wellFormed succeeded
  rw [(entry.keepsBooks wellFormed params).books]
  exact ⟨Books.not_holds_of_answer answer isSubject, Books.holds_of_answer answer isSubject⟩

/-- What is in the books is not registered again. -/
theorem not_mem_registeredIn {subject : Subject} (held : store.books.Holds subject)
    (entries : List Entry) : subject ∉ registeredIn (serialExecutions params store entries) := by
  induction entries generalizing store with
  | nil => exact List.not_mem_nil
  | cons entry rest ih =>
      have kept := entry.keepsBooks wellFormed params
      have heldAfter : (entry.after params store).books.Holds subject := by
        rw [kept.books]
        exact held.transition params entry.actor entry.action
      intro member
      obtain ⟨execution, executed, registered⟩ := List.mem_filterMap.mp member
      rcases List.mem_cons.mp executed with rfl | later
      · exact (Entry.registers wellFormed registered).1 held
      · exact ih kept.wellFormed heldAfter (List.mem_filterMap.mpr ⟨execution, later, registered⟩)

/-- Nothing is registered twice. -/
theorem nodup_registeredIn (params : Params) (entries : List Entry) :
    (registeredIn (serialExecutions params store entries)).Nodup := by
  induction entries generalizing store with
  | nil => exact List.nodup_nil
  | cons entry rest ih =>
      have afterWellFormed := (entry.keepsBooks wellFormed params).wellFormed
      rw [registeredIn, serialExecutions]
      cases registered : Execution.registered?
        ⟨entry.actor, entry.action, (entry.effect params store).1⟩ with
      | none =>
          rw [List.filterMap_cons_none registered]
          exact ih afterWellFormed
      | some subject =>
          rw [List.filterMap_cons_some registered, List.nodup_cons]
          exact ⟨not_mem_registeredIn afterWellFormed (Entry.registers wellFormed registered).2 rest,
            ih afterWellFormed⟩

/-- Whoever has a domain in the books is found in every lookup. -/
theorem result_whois {domain : String} {owner : Address}
    (claimed : store.books.owner? domain = some owner) (entries : List Entry) :
    ∀ execution ∈ serialExecutions params store entries, execution.action = .whois domain →
      execution.result = .ok (.whois true owner) := by
  induction entries generalizing store with
  | nil =>
      intro execution member
      cases member
  | cons entry rest ih =>
      have kept := entry.keepsBooks wellFormed params
      intro execution member lookup
      rcases List.mem_cons.mp member with rfl | later
      · have reckoned : (store.books.transition params entry.actor (.whois domain)).1 =
            .ok (.whois true owner) := by
          simp [Books.transition, Books.settle, Books.refusals, Refusal.first?, Books.enter,
            claimed]
        have answer := kept.answer
        rw [show entry.action = .whois domain from lookup, reckoned] at answer
        exact answer
      · refine ih kept.wellFormed ?_ execution later lookup
        rw [kept.books]
        exact Books.owner?_transition claimed

/-- A claim that succeeds is what all later lookups of the domain find. -/
theorem pairwise_informs (params : Params) (entries : List Entry) :
    (serialExecutions params store entries).Pairwise Execution.Informs := by
  induction entries generalizing store with
  | nil => exact .nil
  | cons entry rest ih =>
      have kept := entry.keepsBooks wellFormed params
      refine List.pairwise_cons.mpr ⟨?_, ih kept.wellFormed⟩
      intro lookup later domain registered isLookup
      obtain ⟨⟨output, succeeded⟩, isDomain⟩ := Execution.registered?_eq_some_iff.mp registered
      have answer := Action.answer_of_effect wellFormed succeeded
      have claimed : (entry.after params store).books.owner? domain = some entry.actor := by
        have isClaim : entry.action = .claimDomain domain := Action.eq_claimDomain isDomain
        rw [isClaim] at answer
        rw [kept.books, isClaim]
        exact Books.owner?_of_answer answer
      exact result_whois kept.wellFormed claimed rest lookup later isLookup

end Log

end PoolLedger
