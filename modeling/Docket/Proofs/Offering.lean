import Docket.Proofs.Listing

/-!
What a pull hands to a pool.  The documents that wait to be tried again keep their rows and come
first again, but a pull asks for as many more as there are of them: whichever they are, the ones
handed over are those that have waited longest of all the others, and a whole batch if there is
one and the pool has room.
-/

namespace Docket

namespace Pool

variable {p q : Pool} {between : Pool → Pool} {id : String} {ids offered : List String}
  {answer : Dispatch} {result : Except WorkerError Nat} {e : WorkerError}

/-- The answers to documents that are handed to a pool one after the other, whatever each answer
is; others may go on with what they do between two of them. -/
def answers (between : Pool → Pool) (p : Pool) : List String → List (Except WorkerError Dispatch)
  | [] => []
  | id :: rest => (p.dispatch id).1 :: answers between (between (p.dispatch id).2) rest

/-- An answer after which a pull goes on to the next document. -/
def GoesOn (answer : Except WorkerError Dispatch) : Prop :=
  ∃ a, answer = .ok a ∧ a ≠ .deferred

def isQueued : Except WorkerError Dispatch → Bool
  | .ok (.queued _) => true
  | _ => false

/-- What came of handing documents over, told by the answers that were given to those that were
offered.  All but the last have let the pull go on, the result counts the answers that tell
of a place unless one was a failure, and a pull is left requested where there was no room. -/
structure Offers (between : Pool → Pool) (p : Pool) (ids offered : List String)
    (result : Except WorkerError Nat) (q : Pool) : Prop where
  first : offered <+: ids
  goesOn : ∀ a ∈ (answers between p offered).dropLast, GoesOn a
  all : (∀ a ∈ answers between p offered, GoesOn a) → offered = ids
  count : (∀ e, .error e ∉ answers between p offered) →
    result = .ok ((answers between p offered).countP isQueued)
  fails : ∀ e, .error e ∈ answers between p offered → result = .error e
  requested : .ok .deferred ∈ answers between p offered → q.pullRequested = true
  unasked : (∀ q, (between q).pullRequested = q.pullRequested) →
    .ok .deferred ∉ answers between p offered → q.pullRequested = p.pullRequested

theorem pullRequested_dispatch (p : Pool) (id : String) :
    (p.dispatch id).2.pullRequested = p.pullRequested := by
  unfold dispatch
  split
  · rfl
  · split <;> rfl

theorem offers_nil : Offers between p [] [] (.ok 0) p where
  first := List.prefix_rfl
  goesOn := by simp [answers]
  all _ := rfl
  count _ := rfl
  fails := by simp [answers]
  requested := by simp [answers]
  unasked _ _ := rfl

theorem offers_of_error (h : (p.dispatch id).1 = .error e) :
    Offers between p (id :: ids) [id] (.error e) (p.dispatch id).2 where
  first := by simp
  goesOn := by simp [answers]
  all := by simp [answers, h, GoesOn]
  count := by simp [answers, h]
  fails := by simp [answers, h]
  requested := by simp [answers, h]
  unasked _ _ := pullRequested_dispatch p id

theorem offers_of_deferred (h : (p.dispatch id).1 = .ok .deferred) :
    Offers between p (id :: ids) [id] (.ok 0) (p.dispatch id).2.requestPull where
  first := by simp
  goesOn := by simp [answers]
  all := by simp [answers, h, GoesOn]
  count := by simp [answers, h, isQueued]
  fails := by simp [answers, h]
  requested _ := rfl
  unasked := by simp [answers, h]

/-- An answer that lets the pull go on adds its place, if it tells of one, to what comes of the
documents behind it. -/
theorem Offers.cons (hanswer : (p.dispatch id).1 = .ok answer) (hgo : answer ≠ .deferred)
    (h : Offers between (between (p.dispatch id).2) ids offered result q) :
    Offers between p (id :: ids) (id :: offered)
      (result.map ((if isQueued (.ok answer) then 1 else 0) + ·)) q := by
  have hcons : answers between p (id :: offered) =
      .ok answer :: answers between (between (p.dispatch id).2) offered := by
    rw [answers, hanswer]
  have hgoesOn : GoesOn (.ok answer) := ⟨answer, rfl, hgo⟩
  constructor
  case first => exact List.cons_prefix_cons.mpr ⟨rfl, h.first⟩
  case goesOn =>
    rw [hcons]
    intro a ha
    by_cases hlast : answers between (between (p.dispatch id).2) offered = []
    · rw [hlast] at ha
      cases ha
    · rw [List.dropLast_cons_of_ne_nil hlast] at ha
      rcases List.mem_cons.mp ha with rfl | ha
      · exact hgoesOn
      · exact h.goesOn a ha
  case all =>
    rw [hcons, List.forall_mem_cons]
    rintro ⟨-, hrest⟩
    rw [h.all hrest]
  case count =>
    rw [hcons]
    intro herror
    rw [h.count fun e he => herror e (List.mem_cons_of_mem _ he), List.countP_cons, Nat.add_comm]
    rfl
  case fails =>
    rw [hcons]
    intro e he
    rw [h.fails e (by simpa using he)]
    rfl
  case requested =>
    rw [hcons]
    intro hdeferred
    exact h.requested (by simpa [Ne.symm hgo] using hdeferred)
  case unasked =>
    rw [hcons]
    intro hbetween hdeferred
    rw [h.unasked hbetween fun hmem => hdeferred (List.mem_cons_of_mem _ hmem), hbetween,
      pullRequested_dispatch]

theorem offers_offerAll (ids : List String) : ∀ p : Pool,
    Offers between p ids (offerAll between p ids).1.2 (offerAll between p ids).1.1
      (offerAll between p ids).2 := by
  induction ids with
  | nil => exact fun p => offers_nil
  | cons id rest ih =>
      intro p
      unfold offerAll
      rcases hdispatch : p.dispatch id with ⟨e | a, q⟩
      · simpa only [hdispatch] using offers_of_error (congrArg Prod.fst hdispatch)
      · have hanswer : (p.dispatch id).1 = .ok a := congrArg Prod.fst hdispatch
        cases a with
        | deferred => simpa only [hdispatch] using offers_of_deferred hanswer
        | queued i =>
            have hoffers := (ih (between (p.dispatch id).2)).cons hanswer (by simp)
            rw [hdispatch] at hoffers
            exact hoffers
        | alreadyQueued =>
            have hoffers := (ih (between (p.dispatch id).2)).cons hanswer (by simp)
            rw [hdispatch] at hoffers
            exact hoffers

/-! How many are left of what is asked for. -/

/-- Of the first elements of a list that has none twice, no more are in another list than that
has elements. -/
theorem min_le_length_filter_take {queue waiting : List String} (hnodup : queue.Nodup)
    (batch : Nat) : min batch (queue.filter (!waiting.contains ·)).length ≤
      ((queue.take (batch + waiting.length)).filter (!waiting.contains ·)).length := by
  by_cases hall : queue.length ≤ batch + waiting.length
  · rw [List.take_of_length_le hall]
    exact Nat.min_le_right _ _
  · have hasked : (queue.take (batch + waiting.length)).length = batch + waiting.length := by
      rw [List.length_take]
      omega
    have hpassed : ((queue.take (batch + waiting.length)).filter (waiting.contains ·)).length ≤
        waiting.length := by
      have hnodup' := (hnodup.sublist (List.take_sublist (batch + waiting.length) _)).filter
        (waiting.contains ·)
      refine (hnodup'.subperm fun a ha => ?_).length_le
      simpa using (List.mem_filter.mp ha).2
    have hsplit := List.length_eq_length_filter_add
      (l := queue.take (batch + waiting.length)) (waiting.contains ·)
    omega

theorem pullLimit_eq (hsmall : p.batchSize + p.waiting.length < 2 ^ 63) :
    p.pullLimit = p.batchSize + p.waiting.length := by
  have hfits : p.batchSize + p.waiting.length < 2 ^ 64 := by omega
  exact Nat.mod_eq_of_lt hfits

/-- Where no queue has room, a pull hands over nothing and is left requested.  Where one has, the
documents that it hands over are in order the first of those with waiting rows that it does
not pass over, those that have waited longest first; it stops early only at an answer that
tells of a failure or of no room, and else hands over a whole batch, or all that there are.
It tells how many found a place, and is left requested if there was no room for one. -/
theorem pull_offers_longest_waiting (hsmall : p.batchSize + p.waiting.length < 2 ^ 63)
    (st : Store) :
    (p.queueFull = true → ∀ pending, (p.pull pending between).1.result = .ok 0 ∧
      (p.pull pending between).1.offered = [] ∧
      (p.pull pending between).2.pullRequested = true) ∧
    (p.queueFull = false →
      let pulled := p.pull (fun limit => .ok (st.documentsPending limit)) between
      let given := answers between p pulled.1.offered
      (∃ others : List String, others.Nodup ∧
        (∀ id, id ∈ others ↔ (∃ r, st.WaitingRow id r) ∧ id ∉ p.waiting) ∧
        others.Pairwise st.ComesBefore ∧ pulled.1.offered <+: others ∧
        ((∀ a ∈ given, GoesOn a) →
          min p.batchSize others.length ≤ pulled.1.offered.length)) ∧
      (∀ id ∈ pulled.1.offered, id ∉ p.waiting) ∧
      (∀ a ∈ given.dropLast, GoesOn a) ∧
      ((∀ e, .error e ∉ given) → pulled.1.result = .ok (given.countP isQueued)) ∧
      (∀ e, .error e ∈ given → pulled.1.result = .error e) ∧
      (.ok .deferred ∈ given → pulled.2.pullRequested = true) ∧
      ((∀ q, (between q).pullRequested = q.pullRequested) → .ok .deferred ∉ given →
        pulled.2.pullRequested = p.pullRequested)) := by
  constructor
  · intro hfull pending
    simp [pull, hfull, requestPull]
  · intro hroom pulled given
    obtain ⟨queue, hnodup, hmem, hsorted, htake⟩ := st.documentsPending_spec
    let asked := (queue.take (p.batchSize + p.waiting.length)).filter (!p.waiting.contains ·)
    have hpulled : pulled = (⟨(offerAll between p asked).1.1, some p.pullLimit,
        (offerAll between p asked).1.2⟩, (offerAll between p asked).2) := by
      simp only [pulled, pull, hroom, htake, pullLimit_eq hsmall]
      rfl
    have hoffers : Offers between p asked pulled.1.offered pulled.1.result pulled.2 := by
      rw [hpulled]
      exact offers_offerAll asked p
    have hothers : ∀ id, id ∈ queue.filter (!p.waiting.contains ·) ↔
        (∃ r, st.WaitingRow id r) ∧ id ∉ p.waiting := by
      intro id
      rw [List.mem_filter, hmem]
      simp
    have hfirst : pulled.1.offered <+: queue.filter (!p.waiting.contains ·) :=
      hoffers.first.trans ((List.take_prefix _ queue).filter _)
    refine ⟨⟨_, hnodup.filter _, hothers, hsorted.filter _, hfirst, fun hgo => ?_⟩,
      fun id hid => ((hothers id).mp (hfirst.subset hid)).2, hoffers.goesOn, hoffers.count,
      hoffers.fails, hoffers.requested, hoffers.unasked⟩
    rw [hoffers.all hgo]
    exact min_le_length_filter_take hnodup p.batchSize

/-- A pool that passes over the first of two documents and asks for one at a time. -/
def pastFirst : Pool := { start 1 1 1 with waiting := ["a"], pullRequested := false }

/-- The second is handed over and finds a place. -/
theorem pull_offers_longest_waiting_pastFirst :
    let pulled := pastFirst.pull (fun limit => .ok (twoWaiting.documentsPending limit)) fun q => q
    pastFirst.batchSize + pastFirst.waiting.length < 2 ^ 63 ∧ pastFirst.queueFull = false ∧
    pulled.1.offered = ["b"] ∧ pulled.1.result = .ok 1 ∧ pulled.2.pullRequested = false := by
  intro pulled
  have hsmall : pastFirst.batchSize + pastFirst.waiting.length < 2 ^ 63 := by decide
  have hroom : pastFirst.queueFull = false := by decide
  have hmain := @pull_offers_longest_waiting pastFirst (fun q => q) hsmall twoWaiting
  obtain ⟨⟨others, hnodup, hothers, -, hfirst, hbatch⟩, -, -, hcount, -, -, hunasked⟩ :=
    hmain.2 hroom
  have hb : "b" ∈ others := by
    rw [hothers]
    exact ⟨⟨.pending "b" .hash default, by decide, rfl, rfl⟩, by decide⟩
  have hall : ∀ id ∈ others, id = "b" := by
    intro id hid
    obtain ⟨⟨r, hr, rfl, -⟩, hwaiting⟩ := (hothers id).mp hid
    simp only [twoWaiting, List.mem_cons, List.not_mem_nil, or_false] at hr
    rcases hr with rfl | rfl
    · exact absurd List.mem_cons_self hwaiting
    · rfl
  have hperm : others.Perm ["b"] := by
    rw [List.perm_ext_iff_of_nodup hnodup (List.nodup_singleton "b")]
    intro id
    rw [List.mem_singleton]
    exact ⟨hall id, fun hid => hid ▸ hb⟩
  obtain rfl := List.perm_singleton.mp hperm
  have hoffered : pulled.1.offered = ["b"] := by
    rcases List.prefix_cons_iff.mp hfirst with hnone | ⟨rest, hsome, hrest⟩
    · have hle := hbatch (by rw [hnone]; simp [answers])
      rw [hnone] at hle
      exact absurd hle (by decide)
    · rw [List.prefix_nil.mp hrest] at hsome
      exact hsome
  have hgiven : answers (fun q => q) pastFirst ["b"] = [.ok (.queued 0)] := by decide
  rw [show pulled.1.offered = _ from hoffered, hgiven] at hcount hunasked
  exact ⟨hsmall, hroom, hoffered, hcount (by simp),
    (hunasked (fun _ => rfl) (by simp)).trans rfl⟩

end Pool

end Docket
