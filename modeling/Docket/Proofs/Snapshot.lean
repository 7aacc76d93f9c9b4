import Docket.Proofs.Deeds
import Docket.Proofs.Overwriting
import Docket.Proofs.Readable

/-!
How far the copy that a pass works on runs ahead of what is stored, whatever calls fail.  Every step
but one changes its copy only where the store has carried out the call that writes the change.  The
step that tells the language changes its copy first, so that the copy has a language which the row has
not once the call fails, and the last step publishes it.
-/

namespace Docket

open Docket.Calendar (Instant)

/-! ### What a copy has ahead of its row -/

/-- A row shows a document if it does so but for the language, and has its language. -/
theorem DocumentRow.shows_iff {r : DocumentRow} {d : Document} :
    r.Shows d ↔ DocumentRow.Shows { r with lang := d.lang } d ∧ d.lang = r.lang := by
  constructor
  · intro h
    have hlang : r.lang = d.lang := congrArg DocumentRow.lang h.fields
    rw [← hlang]
    exact ⟨h, rfl⟩
  · rintro ⟨h, hlang⟩
    rwa [hlang] at h

/-- The language that the copy of a document has by the time of a call that is to store the copy.  A
call that is to store it with its entries is made before the copy changes. -/
def StoreCall.spoken? (id : String) : StoreCall → Option String
  | .updateDocument d => if d.id = id then some d.lang else none
  | _ => none

/-- The language that the copy of a document has ahead of its row since some past: that of the last
call which was to store the copy, where it was not carried out and nothing has stored the copy
since. -/
def Surroundings.ahead? (s : Surroundings) (id : String) (base : List Moment) (st₀ : Store) :
    List Moment → Option String
  | [] => none
  | .effect _ :: since => s.ahead? id base st₀ since
  | .call call :: since =>
    if s.heeds (since ++ base) (s.replay base st₀ since) call then
      if (call.written? id .lang).isSome then none else s.ahead? id base st₀ since
    else (call.spoken? id).or (s.ahead? id base st₀ since)

/-- A copy shows the row of its document as moments since some past have left it, but for the language,
which is that of the row unless the copy is ahead of it. -/
def Surroundings.Follows (s : Surroundings) (id : String) (base : List Moment) (st₀ : Store)
    (d : Document) (past : List Moment) (st : Store) : Prop :=
  ∃ since row, past = since ++ base ∧ st = s.replay base st₀ since ∧
    st.documentRow? id = some row ∧ DocumentRow.Shows { row with lang := d.lang } d ∧
    d.lang = (s.ahead? id base st₀ since).getD row.lang

/-- A call that was to store a document with a language was not carried out, and nothing has stored its
language since. -/
def Surroundings.Unstored (s : Surroundings) (id : String) (base : List Moment) (st₀ : Store)
    (lang : String) (since : List Moment) : Prop :=
  ∃ later d before, since = later ++ .call (.updateDocument d) :: before ∧ d.id = id ∧
    d.lang = lang ∧
    s.heeds (before ++ base) (s.replay base st₀ before) (.updateDocument d) = false ∧
    s.lastWritten? id .lang (.call (.updateDocument d) :: before ++ base)
      (s.replay base st₀ (.call (.updateDocument d) :: before)) later = none

/-- The copy on a desk follows the row of its document. -/
def Surroundings.Tracks (s : Surroundings) (id : String) (base : List Moment) (st₀ : Store)
    (desk : Desk) : Prop :=
  s.Follows id base st₀ desk.copy desk.world.moments desk.world.store

namespace StoreCall

variable {call : StoreCall} {id : String}

theorem documentRow?_perform_of_writes? {now : Instant} {st st' : Store}
    (hwrites : call.writes? = none) (h : call.perform now st = .ok st') :
    st'.documentRow? id = st.documentRow? id := by
  cases call with
  | setStatus | setContent | updateDocument | updateWithEntries => cases hwrites
  | _ =>
      cases h
      rfl

theorem written?_of_writes? (hwrites : call.writes? = none) (c : Column) :
    call.written? id c = none := by
  cases call with
  | setStatus | setContent | updateDocument | updateWithEntries => cases hwrites
  | _ => rfl

theorem spoken?_of_writes? (hwrites : call.writes? = none) : call.spoken? id = none := by
  cases call with
  | updateDocument => cases hwrites
  | _ => rfl

theorem spoken?_eq_some {lang : String} (h : call.spoken? id = some lang) :
    ∃ d, call = .updateDocument d ∧ d.id = id ∧ d.lang = lang := by
  cases call with
  | updateDocument d =>
      rw [spoken?] at h
      split at h
      · next hid =>
          cases h
          exact ⟨d, rfl, hid, rfl⟩
      · cases h
  | _ => cases h

end StoreCall

namespace Surroundings

variable {s : Surroundings} {id : String} {base past since : List Moment} {st₀ st : Store}
  {call : StoreCall} {d d' : Document}

theorem perform_of_heeds (halone : s.Alone) (h : s.heeds past st call = true) :
    call.perform (s.clock past) st = .ok (s.after past st (.call call)) := by
  rw [heeds, Bool.and_eq_true, halone, Option.isNone_iff_eq_none] at h
  obtain ⟨hrefuse, hperform⟩ := h
  cases hok : call.perform (s.clock past) st with
  | error e =>
      rw [hok] at hperform
      cases hperform
  | ok st' => rw [after_of_heeded hrefuse (by rwa [halone])]

theorem after_of_not_heeds (halone : s.Alone) (h : s.heeds past st call = false) :
    s.after past st (.call call) = st := by
  rcases s.after_call_cases past st call with hsame | ⟨hrefuse, hperform⟩
  · rw [hsame, halone]
  · rw [heeds, hrefuse, hperform] at h
    cases h

theorem ahead?_of_heeds (h : s.heeds (since ++ base) (s.replay base st₀ since) call = true) :
    s.ahead? id base st₀ (.call call :: since) =
      if (call.written? id .lang).isSome then none else s.ahead? id base st₀ since := by
  rw [ahead?, if_pos h]

theorem ahead?_of_not_heeds (h : s.heeds (since ++ base) (s.replay base st₀ since) call = false) :
    s.ahead? id base st₀ (.call call :: since) =
      (call.spoken? id).or (s.ahead? id base st₀ since) := by
  rw [ahead?, if_neg (by rw [h]; exact Bool.false_ne_true)]

theorem replay_append (s : Surroundings) (base : List Moment) (st₀ : Store)
    (later before : List Moment) :
    s.replay base st₀ (later ++ before) =
      s.replay (before ++ base) (s.replay base st₀ before) later := by
  induction later with
  | nil => rfl
  | cons m later ih => rw [List.cons_append, replay, replay, ih, List.append_assoc]

/-- What is left unstored so far is so after a moment that writes no language. -/
theorem Unstored.cons {lang : String} {m : Moment} (h : s.Unstored id base st₀ lang since)
    (hwritten : s.written? id .lang (since ++ base) (s.replay base st₀ since) m = none) :
    s.Unstored id base st₀ lang (m :: since) := by
  obtain ⟨later, d, before, rfl, hid, hlang, hrefused, hlast⟩ := h
  refine ⟨m :: later, d, before, rfl, hid, hlang, hrefused, ?_⟩
  rw [List.append_assoc, replay_append] at hwritten
  exact Option.or_eq_none_iff.mpr ⟨hwritten, hlast⟩

theorem unstored_of_ahead? {lang : String} (h : s.ahead? id base st₀ since = some lang) :
    s.Unstored id base st₀ lang since := by
  induction since with
  | nil => cases h
  | cons m since ih =>
      cases m with
      | effect e => exact (ih h).cons rfl
      | call call =>
          cases hheeds : s.heeds (since ++ base) (s.replay base st₀ since) call with
          | true =>
              rw [ahead?_of_heeds hheeds] at h
              split at h
              · cases h
              · next hnone =>
                  refine (ih h).cons ?_
                  rw [written?, if_pos hheeds]
                  simpa using hnone
          | false =>
              rw [ahead?_of_not_heeds hheeds] at h
              rcases Option.or_eq_some_iff.mp h with hspoken | ⟨-, hahead⟩
              · obtain ⟨d, rfl, hid, hlang⟩ := StoreCall.spoken?_eq_some hspoken
                exact ⟨[], d, since, rfl, hid, hlang, hheeds, rfl⟩
              · refine (ih hahead).cons ?_
                rw [written?, if_neg (by rw [hheeds]; exact Bool.false_ne_true)]

namespace Follows

theorem id_eq (h : s.Follows id base st₀ d past st) : d.id = id := by
  obtain ⟨since, row, -, -, hrow, hshows, -⟩ := h
  have hid : row.id = d.id := congrArg DocumentRow.id hshows.fields
  exact hid.symm.trans (Store.id_of_documentRow? hrow)

/-- A call that writes no row leaves a copy where it is. -/
theorem aside (halone : s.Alone) (h : s.Follows id base st₀ d past st)
    (hwrites : call.writes? = none) :
    s.Follows id base st₀ d (.call call :: past) (s.after past st (.call call)) := by
  obtain ⟨since, row, rfl, rfl, hrow, hshows, hlang⟩ := h
  refine ⟨.call call :: since, row, rfl, rfl, ?_, hshows, ?_⟩
  · cases hheeds : s.heeds (since ++ base) (s.replay base st₀ since) call with
    | true =>
        rw [call.documentRow?_perform_of_writes? hwrites (perform_of_heeds halone hheeds)]
        exact hrow
    | false => rwa [after_of_not_heeds halone hheeds]
  · rw [hlang]
    congr 1
    cases hheeds : s.heeds (since ++ base) (s.replay base st₀ since) call with
    | true =>
        rw [ahead?_of_heeds hheeds, call.written?_of_writes? hwrites]
        rfl
    | false =>
        rw [ahead?_of_not_heeds hheeds, call.spoken?_of_writes? hwrites]
        rfl

theorem maintains (halone : s.Alone) :
    s.Maintains (Moment.Calls fun call => call.writes? = none) (s.Follows id base st₀ d) := by
  rintro past st (call | e) hm h
  · exact h.aside halone hm
  · obtain ⟨since, row, rfl, rfl, hrow, hshows, hlang⟩ := h
    exact ⟨.effect e :: since, row, rfl, rfl, hrow, hshows, hlang⟩

/-- A copy whose storing was carried out has nothing ahead of its row. -/
theorem stored (halone : s.Alone) (h : s.Follows id base st₀ d past st)
    (hsame : d.SameOrigin d') (hheeds : s.heeds past st call = true)
    (hcall : call = .updateDocument d' ∨ call = .updateWithEntries d') :
    s.Follows id base st₀ d' (.call call :: past) (s.after past st (.call call)) := by
  have hown : d'.id = id := hsame.id.trans h.id_eq
  obtain ⟨since, row, rfl, rfl, hrow, hshows, -⟩ := h
  have hid : row.id = d'.id := (Store.id_of_documentRow? hrow).trans hown.symm
  have hperform := perform_of_heeds halone hheeds
  let now := s.clock (since ++ base)
  have hstored : ((s.replay base st₀ since).updateDocument d' now).2.documentRow? id =
      some (row.withFieldsOf d' now) := by
    rw [Store.updateDocument, Store.documentRow?_changeDocument (f := (·.withFieldsOf d' now))
      (fun _ => rfl), hrow, Option.map_some, if_pos hid]
  refine ⟨.call call :: since, row.withFieldsOf d' now, rfl, rfl, ?_,
    hshows.withFieldsOf hsame now, ?_⟩
  · rcases hcall with rfl | rfl
    · obtain ⟨-, heq⟩ := orNoDocument_ok hperform
      rw [← heq]
      exact hstored
    · obtain ⟨⟨updated, st'⟩, hupdated, hthere⟩ := exists_of_bind_ok hperform
      obtain ⟨rfl, rfl⟩ := orNoDocument_ok hthere
      obtain ⟨-, heq⟩ := Store.updateWithEntries_true hupdated
      rw [heq]
      exact hstored
  · have hwritten : call.written? id .lang = some d'.lang := by
      rcases hcall with rfl | rfl
      · exact if_pos hown
      · exact if_pos hown
    rw [ahead?_of_heeds hheeds, hwritten]
    rfl

/-- A copy whose content was stored is ahead with what it was. -/
theorem storedContent (halone : s.Alone) (h : s.Follows id base st₀ d past st) {text : String}
    (hheeds : s.heeds past st (.setContent d.id text) = true) :
    s.Follows id base st₀ { d with content := text } (.call (.setContent d.id text) :: past)
      (s.after past st (.call (.setContent d.id text))) := by
  have hown := h.id_eq
  obtain ⟨since, row, rfl, rfl, hrow, hshows, hlang⟩ := h
  have hid : row.id = d.id := (Store.id_of_documentRow? hrow).trans hown.symm
  let now := s.clock (since ++ base)
  refine ⟨.call _ :: since, { row with content := text, updatedAt := now.toMicrosText }, rfl, rfl,
    ?_, hshows.withContent text now, ?_⟩
  · obtain ⟨-, heq⟩ := orNoDocument_ok (perform_of_heeds halone hheeds)
    rw [← heq, Store.setContent, Store.documentRow?_changeDocument (f := fun r : DocumentRow =>
      { r with content := text, updatedAt := now.toMicrosText }) (fun _ => rfl), hrow,
      Option.map_some, if_pos hid]
  · have hwritten : (StoreCall.setContent d.id text).written? id .lang = none := ite_self none
    rw [ahead?_of_heeds hheeds, hwritten]
    exact hlang

/-- A copy whose storing was not carried out has its language ahead, and nothing else. -/
theorem refused (halone : s.Alone) (h : s.Follows id base st₀ d past st)
    (hid : d'.id = d.id) (hheeds : s.heeds past st (.updateDocument d') = false) :
    s.Follows id base st₀ { d with lang := d'.lang } (.call (.updateDocument d') :: past)
      (s.after past st (.call (.updateDocument d'))) := by
  have hown : d'.id = id := hid.trans h.id_eq
  obtain ⟨since, row, rfl, rfl, hrow, hshows, -⟩ := h
  refine ⟨.call _ :: since, row, rfl, rfl, by rwa [after_of_not_heeds halone hheeds], ?_, ?_⟩
  · refine ⟨?_, hshows.date, hshows.createdAt⟩
    exact congrArg (fun r : DocumentRow => { r with lang := d'.lang }) hshows.fields
  · have hspoken : (StoreCall.updateDocument d').spoken? id = some d'.lang := if_pos hown
    rw [ahead?_of_not_heeds hheeds, hspoken]
    rfl

/-- Another call that was not carried out leaves a copy where it is. -/
theorem neglected (halone : s.Alone) (h : s.Follows id base st₀ d past st)
    (hspoken : call.spoken? id = none) (hheeds : s.heeds past st call = false) :
    s.Follows id base st₀ d (.call call :: past) (s.after past st (.call call)) := by
  obtain ⟨since, row, rfl, rfl, hrow, hshows, hlang⟩ := h
  refine ⟨.call call :: since, row, rfl, rfl, by rwa [after_of_not_heeds halone hheeds], hshows, ?_⟩
  rw [ahead?_of_not_heeds hheeds, hspoken]
  exact hlang

/-- Entries and tags are no part of a row. -/
theorem attach (h : s.Follows id base st₀ d past st) (metadata : Option (List Entry))
    (tags : Option (List Tag)) :
    s.Follows id base st₀ { d with metadata := metadata, tags := tags } past st := by
  obtain ⟨since, row, hpast, hst, hrow, hshows, hlang⟩ := h
  exact ⟨since, row, hpast, hst, hrow, ⟨hshows.fields, hshows.date, hshows.createdAt⟩, hlang⟩

end Follows

/-- A copy that follows its row either shows it or has a language that was left unstored. -/
theorem Tracks.row {desk : Desk} (h : s.Tracks id base st₀ desk) :
    ∃ since row, desk.world.moments = since ++ base ∧
      desk.world.store.documentRow? id = some row ∧
      DocumentRow.Shows { row with lang := desk.copy.lang } desk.copy ∧
      desk.copy.lang = (s.ahead? id base st₀ since).getD row.lang ∧
      (row.Shows desk.copy ∨ s.Unstored id base st₀ desk.copy.lang since) := by
  obtain ⟨since, row, hmoments, -, hrow, hshows, hlang⟩ := h
  refine ⟨since, row, hmoments, hrow, hshows, hlang, ?_⟩
  cases hahead : s.ahead? id base st₀ since with
  | none =>
      rw [hahead] at hlang
      exact .inl (DocumentRow.shows_iff.mpr ⟨hshows, hlang⟩)
  | some lang =>
      rw [hahead] at hlang
      have hlang : desk.copy.lang = lang := hlang
      rw [hlang]
      exact .inr (unstored_of_ahead? hahead)

end Surroundings

/-! ### What steps do to it -/

namespace Act

variable {σ α β : Type} {s : Surroundings} {J K : σ → Prop} {Q : α → Prop}

/-- Work leads from states of a kind to states of another, unless the process stops. -/
def Lands (s : Surroundings) (J K : σ → Prop) (x : Act σ α) : Prop :=
  ∀ w, J w → (x s w).1 ≠ .error .stop → K (x s w).2

namespace Lands

theorem of_keeps {x : Act σ α} (hx : Keeps s J x Q) (hK : ∀ w, J w → K w) : Lands s J K x :=
  fun w hw _ => hK _ (hx w hw).1

theorem pure (a : α) (hK : ∀ w, J w → K w) : Lands s J K (Pure.pure a) :=
  fun w hw _ => hK w hw

theorem bind {x : Act σ α} {f : α → Act σ β} (hx : Keeps s J x Q) (hK : ∀ w, J w → K w)
    (hf : ∀ a, Q a → Lands s J K (f a)) : Lands s J K (x >>= f) := by
  intro w hw hgoes
  have hxw := hx w hw
  rcases heq : x s w with ⟨i | a, w'⟩
  · rw [heq] at hxw
    rw [bind_of_error heq]
    exact hK _ hxw.1
  · rw [heq] at hxw
    rw [bind_of_ok heq] at hgoes ⊢
    exact hf a (hxw.2 a rfl) w' hxw.1 hgoes

end Lands

/-- A call for a change happens not at all, or it is not carried out, or it is. -/
theorem onWorld_tell_heeds (s : Surroundings) (call : StoreCall) (desk : Desk) :
    Act.onWorld (.tell call) s desk = (.error .stop, desk) ∨
    s.heeds desk.world.moments desk.world.store call = false ∧
      (∃ e, Act.onWorld (.tell call) s desk = (.error (.error e), desk.next s (.call call))) ∨
    s.heeds desk.world.moments desk.world.store call = true ∧
      Act.onWorld (.tell call) s desk = (.ok (), desk.next s (.call call)) := by
  cases hstop : s.stops desk.world.moments with
  | true =>
      left
      simp only [Act.onWorld, Act.within, Act.tell_of_stop call hstop]
  | false =>
      right
      have htell : Act.onWorld (.tell call) s desk =
          (s.verdict desk.world.moments desk.world.store call, desk.next s (.call call)) := by
        simp only [Act.onWorld, Act.within, Act.tell_of_go call hstop]
        rfl
      rw [htell, Surroundings.verdict, Surroundings.heeds]
      cases s.refuses desk.world.moments call with
      | some e => exact .inl ⟨rfl, _, rfl⟩
      | none =>
          cases call.perform (s.clock desk.world.moments)
            (s.others desk.world.moments desk.world.store) with
          | error e => exact .inl ⟨rfl, _, rfl⟩
          | ok st => exact .inr ⟨rfl, rfl⟩

theorem ask_offered (call : StoreCall) (run : Store → Except StoreError α)
    (s : Surroundings) (w : World) : (Act.ask call run s w).2.offered = w.offered := by
  simp only [Act.ask, Act.call]
  split
  · rfl
  split
  · rfl
  split
  · rfl
  · rfl

/-- A copy that is changed once a call was carried out. -/
theorem lands_tell_setCopy {J K : Desk → Prop} {call : StoreCall} {d : Document}
    (hstill : ∀ desk, J desk → K desk)
    (hrefused : ∀ desk, J desk → s.heeds desk.world.moments desk.world.store call = false →
      K (desk.next s (.call call)))
    (hheeded : ∀ desk, J desk → s.heeds desk.world.moments desk.world.store call = true →
      K { desk.next s (.call call) with copy := d }) :
    Lands s J K (Act.onWorld (.tell call) >>= fun _ => Act.setCopy d) := by
  intro desk hdesk hgoes
  rcases onWorld_tell_heeds s call desk with hstop | ⟨hheeds, e, htell⟩ | ⟨hheeds, htell⟩
  · rw [bind_of_error hstop]
    exact hstill desk hdesk
  · rw [bind_of_error htell]
    exact hrefused desk hdesk hheeds
  · rw [bind_of_ok htell]
    exact hheeded desk hdesk hheeds

end Act

namespace Moment

variable {id : String} {t : Step} {m : Moment}

/-- What a step brings about apart from storing its copy writes no row. -/
theorem OnBehalf.aside (hm : m.OnBehalf fun _ => False) :
    m.Calls fun call => call.writes? = none := by
  cases m with
  | effect e => trivial
  | call call =>
      cases call with
      | setContent => exact hm.elim fun _ h => h.1.elim
      | setStatus | updateDocument | updateWithEntries => exact hm.elim
      | _ => rfl

theorem OfStep.aside (hm : m.OfStep (fun _ => False) id t) :
    m.Calls fun call => call.writes? = none := by
  rcases hm with hm | ⟨call, rfl, hjob⟩
  · exact hm.aside
  · cases call with
    | startJob | finishJob | requeueJob | clearJob => rfl
    | _ => cases hjob

end Moment

namespace Handler

open Act (Keeps Lands)

variable {s : Surroundings} {id : String} {base : List Moment} {st₀ : Store} {d : Document}

/-- A desk whose copy is still what it was, and follows its row. -/
abbrev Steady (s : Surroundings) (id : String) (base : List Moment) (st₀ : Store) (d : Document) :
    Desk → Prop :=
  Desk.Has (· = d) (s.Follows id base st₀ d)

theorem steady_of_tracks {desk : Desk} (h : s.Tracks id base st₀ desk) :
    Steady s id base st₀ desk.copy desk :=
  ⟨rfl, h⟩

theorem tracks_of_steady {desk : Desk} (h : Steady s id base st₀ d desk) :
    s.Tracks id base st₀ desk := by
  obtain ⟨rfl, hfollows⟩ := h
  exact hfollows

theorem lands_bind {α β : Type} {Q : α → Prop} {x : Act Desk α} {f : α → Act Desk β}
    (hx : Keeps s (Steady s id base st₀ d) x Q)
    (hf : ∀ a, Q a → Lands s (Steady s id base st₀ d) (s.Tracks id base st₀) (f a)) :
    Lands s (Steady s id base st₀ d) (s.Tracks id base st₀) (x >>= f) :=
  .bind hx (fun _ => tracks_of_steady) hf

theorem lands_pure {α : Type} (a : α) :
    Lands s (Steady s id base st₀ d) (s.Tracks id base st₀) (Pure.pure a) :=
  .pure a fun _ => tracks_of_steady

/-- The copy has the new hash only once it is stored. -/
theorem hash_lands (halone : s.Alone) :
    Lands s (Steady s id base st₀ d) (s.Tracks id base st₀) hash := by
  have hI : s.Maintains _ (s.Follows id base st₀ d) := .maintains halone
  have hmoves : ∀ plan, Keeps s (Steady s id base st₀ d) (Act.onWorld (Act.carryOut plan)) :=
    fun plan => .onWorld (.carryOut hI (fun _ => trivial) plan)
  unfold hash
  refine lands_bind .surroundings fun s' hs => ?_
  refine lands_bind .copy fun d' hd => ?_
  subst s' hd
  refine lands_bind (.ofExcept _ _) fun path _ => ?_
  refine lands_bind .state fun _ _ => ?_
  refine lands_bind (.ofExcept _ _) fun hash _ => ?_
  split
  · exact lands_pure ()
  refine lands_bind (hmoves _) fun target _ => ?_
  refine lands_bind .state fun seen _ => ?_
  let moved := rehashed d' hash seen.world.files target
  have hsame : d'.SameOrigin moved := ⟨rfl, rfl, rfl, rfl, rfl⟩
  intro desk hdesk _
  obtain ⟨hcopy, hfollows⟩ := hdesk
  rcases Act.onWorld_tell_heeds s (.updateDocument moved) desk with
    hstop | ⟨hheeds, e, htell⟩ | ⟨hheeds, htell⟩
  · rw [Act.bind_of_error (Act.attempt_of_stop (x := store moved) hstop)]
    exact tracks_of_steady ⟨hcopy, hfollows⟩
  · rw [Act.bind_of_ok (Act.attempt_of_fail (x := store moved) htell)]
    have hrefused : Steady s id base st₀ d' (desk.next s (.call (.updateDocument moved))) :=
      ⟨hcopy, hfollows.refused halone rfl hheeds⟩
    have hrestores : Keeps s (Steady s id base st₀ d') ((Act.onWorld (Act.carryOut fun files =>
        s.storage.restoration files d' hash)).attempt >>= fun _ => (Act.fail e : Act Desk Unit)) :=
      .bind (.attempt (hmoves _)) fun _ _ => .fail e
    exact tracks_of_steady (hrestores _ hrefused).1
  · rw [Act.bind_of_ok (Act.attempt_of_ok (x := store moved) htell)]
    exact hfollows.stored halone hsame hheeds (.inl rfl)

theorem thumbnail_lands (scratch : String) :
    Lands s (Steady s id base st₀ d) (s.Tracks id base st₀) (thumbnail scratch) :=
  .of_keeps (thumbnail_keeps scratch) fun _ => tracks_of_steady

theorem parseContent_lands (halone : s.Alone) (scratch : String) :
    Lands s (Steady s id base st₀ d) (s.Tracks id base st₀) (parseContent scratch) := by
  unfold parseContent
  refine lands_bind .surroundings fun _ _ => ?_
  refine lands_bind .copy fun d' hd => ?_
  subst hd
  refine lands_bind (.ofExcept _ _) fun path _ => ?_
  refine lands_bind (.onWorld (.extract _)) fun text _ => ?_
  refine Act.lands_tell_setCopy (fun _ => tracks_of_steady) (fun desk hdesk hheeds => ?_)
    fun desk hdesk hheeds => ?_
  · exact tracks_of_steady ⟨hdesk.1, hdesk.2.neglected halone rfl hheeds⟩
  · exact hdesk.2.storedContent halone hheeds

/-- The copy has the language before the store is called, so that it has it also where the call is not
carried out. -/
theorem detectLanguage_lands (halone : s.Alone) :
    Lands s (Steady s id base st₀ d) (s.Tracks id base st₀) detectLanguage := by
  unfold detectLanguage
  refine lands_bind .surroundings fun _ _ => ?_
  refine lands_bind .copy fun d' hd => ?_
  subst hd
  split
  · exact lands_pure ()
  dsimp only
  split
  · exact lands_pure ()
  refine lands_bind (.onWorld (identify_keeps _)) fun found _ => ?_
  cases found with
  | none => exact lands_pure ()
  | some lang =>
      let spoken : Document := { d' with lang := lang }
      have hsame : d'.SameOrigin spoken := ⟨rfl, rfl, rfl, rfl, rfl⟩
      intro desk hdesk hgoes
      have hcopied : Act.setCopy spoken s desk = (.ok (), { desk with copy := spoken }) := rfl
      dsimp only at hgoes ⊢
      rw [Act.bind_of_ok hcopied] at hgoes ⊢
      rcases Act.onWorld_tell_heeds s (.updateDocument spoken) { desk with copy := spoken } with
        hstop | ⟨hheeds, e, htell⟩ | ⟨hheeds, htell⟩
      · rw [store, hstop] at hgoes
        exact absurd rfl hgoes
      · rw [store, htell]
        exact hdesk.2.refused halone rfl hheeds
      · rw [store, htell]
        exact hdesk.2.stored halone hsame hheeds (.inl rfl)

/-- The copy changes only once the rules' results are stored. -/
theorem rules_lands (halone : s.Alone) (hr : s.registry.ActsBuiltin) :
    Lands s (Steady s id base st₀ d) (s.Tracks id base st₀) rules := by
  have hI : s.Maintains _ (s.Follows id base st₀ d) := .maintains halone
  unfold rules
  refine lands_bind .surroundings fun s' hs => ?_
  refine lands_bind .copy fun d' hd => ?_
  subst s' hd
  refine lands_bind (.onWorld (.ask hI (c := .activeRules _) rfl (fun _ _ => rfl) _))
    fun rules _ => ?_
  refine lands_bind (.onWorld (.ask hI (c := .documentEntries _) rfl (fun _ _ => rfl) _))
    fun entries _ => ?_
  refine lands_bind (.onWorld (.ask hI (c := .autoMatchValues _) rfl (fun _ _ => rfl) _))
    fun values _ => ?_
  have hsame : d'.SameOrigin (d'.ruled s.registry entries values rules) :=
    Document.sameOrigin_ruled hr
  refine Act.lands_tell_setCopy (fun _ => tracks_of_steady) (fun desk hdesk hheeds => ?_)
    fun desk hdesk hheeds => ?_
  · exact tracks_of_steady ⟨hdesk.1, hdesk.2.neglected halone rfl hheeds⟩
  · exact hdesk.2.stored halone hsame hheeds (.inr rfl)

/-- What the last step attaches to its copy is no part of the row. -/
theorem ftsIndex_lands (halone : s.Alone) :
    Lands s (Steady s id base st₀ d) (s.Tracks id base st₀) ftsIndex := by
  intro desk hdesk _
  obtain ⟨hcopy, hfollows⟩ := hdesk
  have hkeeps : Keeps s (Desk.Has (fun d' => ∃ metadata tags,
      d' = { d with metadata := metadata, tags := tags }) (s.Follows id base st₀ d)) ftsIndex := by
    refine ftsIndex_keeps ?_ ?_ (Surroundings.Follows.maintains halone) fun m hm => hm.aside
    · rintro _ metadata ⟨_, tags, rfl⟩
      exact ⟨metadata, tags, rfl⟩
    · rintro _ tags ⟨metadata, _, rfl⟩
      exact ⟨metadata, tags, rfl⟩
  obtain ⟨⟨metadata, tags, hattached⟩, hkept⟩ :=
    (hkeeps desk ⟨⟨d.metadata, d.tags, hcopy⟩, hfollows⟩).1
  rw [Surroundings.Tracks, hattached]
  exact Surroundings.Follows.attach hkept metadata tags

/-- Every step leaves a copy that follows its row, whether it succeeds or not. -/
theorem ofStep_lands (halone : s.Alone) (hr : s.registry.ActsBuiltin) (scratch : String) (t : Step) :
    Lands s (s.Tracks id base st₀) (s.Tracks id base st₀) (ofStep scratch t) := by
  intro desk hdesk
  have hsteady := steady_of_tracks hdesk
  cases t with
  | hash => exact hash_lands halone desk hsteady
  | thumbnail => exact thumbnail_lands scratch desk hsteady
  | parseContent => exact parseContent_lands halone scratch desk hsteady
  | detectLanguage => exact detectLanguage_lands halone desk hsteady
  | rules => exact rules_lands halone hr desk hsteady
  | ftsIndex => exact ftsIndex_lands halone desk hsteady

/-- The last step hands over its copy as it is in the end, or nothing. -/
theorem ftsIndex_offered (s : Surroundings) (desk : Desk) :
    (ftsIndex s desk).2.world.offered = desk.world.offered ∨
      (ftsIndex s desk).2.world.offered = (ftsIndex s desk).2.copy :: desk.world.offered := by
  let J (desk' : Desk) : Prop := desk'.world.offered = desk.world.offered
  let K (desk' : Desk) : Prop := J desk' ∨ desk'.world.offered = desk'.copy :: desk.world.offered
  have hJ : ∀ desk', J desk' → K desk' := fun _ => .inl
  have hcopy : Keeps s J Act.copy := .bind .state fun _ _ => .pure trivial
  have hask : ∀ {α : Type} call (run : Store → Except StoreError α),
      Keeps s J (Act.onWorld (.ask call run)) :=
    fun call run desk' h => ⟨(Act.ask_offered call run s desk'.world).trans h, fun _ _ => trivial⟩
  have hset : ∀ d, Keeps s J (Act.setCopy d) := fun d => .change fun _ h => h
  have hoffer : Act.Leads s J K (Act.copy >>= fun d => Act.onWorld (offer d)) := by
    intro desk' h
    right
    rw [offer_copy_snd]
    exact congrArg (desk'.copy :: ·) h
  have htagged : Act.Leads s J K (Act.copy >>= fun d =>
      if d.tags.isNone then do
        let tags ← Act.onWorld
          (.ask (.documentTags d.id) fun st => .ok (st.documentTags d.id))
        Act.setCopy { d with tags := some tags }
        Act.onWorld (offer (← Act.copy))
      else do Act.onWorld (offer (← Act.copy))) := by
    refine .bind hcopy hJ fun d _ => ?_
    split
    · refine .bind (hask _ _) hJ fun tags _ => ?_
      exact .bind (hset _) hJ fun _ _ => hoffer
    · exact hoffer
  have hleads : Act.Leads s J K ftsIndex := by
    unfold ftsIndex
    refine .bind hcopy hJ fun d _ => ?_
    dsimp only
    split
    · refine .bind (hask _ _) hJ fun entries _ => ?_
      exact .bind (hset _) hJ fun _ _ => htagged
    · exact htagged
  exact hleads desk rfl

end Handler

/-! ### A pass -/

namespace Pass

open Act (Keeps Lands)

variable {s : Surroundings} {id : String} {t : Step} {base : List Moment} {st₀ : Store}
  {desk desk' began ended : Desk}

/-- Calls about jobs leave the copy where it is. -/
theorem maintains_job (halone : s.Alone) (d : Document) :
    s.Maintains (Moment.OfStep (fun _ => False) id t) (s.Follows id base st₀ d) :=
  (Surroundings.Follows.maintains halone).mono fun _ hm => hm.aside

theorem begin_tracks (halone : s.Alone) (h : s.Tracks id base st₀ desk)
    (hbegin : begin id t s desk = (.ok (), desk')) : s.Tracks id base st₀ desk' := by
  have hkept := (begin_keeps (maintains_job (t := t) halone desk.copy) desk
    (Handler.steady_of_tracks h)).1
  rw [hbegin] at hkept
  exact Handler.tracks_of_steady hkept

theorem runStep_tracks {handler : Handler} {answer : Option String} (halone : s.Alone)
    (hhandler : Lands s (s.Tracks id base st₀) (s.Tracks id base st₀) handler)
    (h : s.Tracks id base st₀ desk) (hrun : runStep handler id t s desk = (.ok answer, desk')) :
    s.Tracks id base st₀ desk' := by
  obtain ⟨_, desk₁, hbegin, hrun⟩ := Act.exists_of_bind_ok hrun
  obtain ⟨r, desk₂, hattempt, hconclude⟩ := Act.exists_of_bind_ok hrun
  have hdesk₂ : s.Tracks id base st₀ desk₂ := by
    rcases Act.attempt_cases handler s desk₁ with ⟨r', hr', hresult⟩ | ⟨i, hi, -⟩
    · rw [hr'] at hattempt
      cases hattempt
      refine hhandler desk₁ (begin_tracks halone h hbegin) ?_
      rw [hresult]
      intro hstop
      cases r with
      | ok u => cases hstop
      | error e => cases hstop
    · rw [hi] at hattempt
      cases hattempt
  have hkept := (conclude_keeps (maintains_job (t := t) halone desk₂.copy) (note r) desk₂
    (Handler.steady_of_tracks hdesk₂)).1
  rw [hconclude] at hkept
  exact Handler.tracks_of_steady hkept

/-- Every step of a run begins with a copy that follows its row. -/
theorem tracks_of_begins (halone : s.Alone) (hr : s.registry.ActsBuiltin) {scratch : String}
    {steps : List Step} (hbegins : Begins (Handler.ofStep scratch) id s steps desk t began)
    (h : s.Tracks id base st₀ desk) : s.Tracks id base st₀ began := by
  induction hbegins with
  | here hbegin => exact begin_tracks halone h hbegin
  | later hstep _ ih =>
      exact ih (runStep_tracks halone (Handler.ofStep_lands halone hr scratch _) h hstep)

/-- A pass opens with a copy that follows its row: it is what the row reads as. -/
theorem tracks_of_opened (halone : s.Alone) {w w₁ w₂ w₃ : World} {d : Document} {steps : List Step}
    (hget : Act.ask (.getDocument id) (·.getDocument id) s w = (.ok d, w₁))
    (hpending : pending id s w₁ = (.ok steps, w₂)) (hopen : openScratch s w₂ = (.ok (), w₃)) :
    s.Tracks id w.moments w.store ⟨w₃, d⟩ := by
  have hI : s.Maintains _ (s.Follows id w.moments w.store d) := .maintains halone
  obtain ⟨hread, -⟩ := Act.ask_ok halone (fun _ _ => rfl) hget
  obtain ⟨row, hrow, hrowRead⟩ := row_of_getDocument hread
  have hw : World.Has (s.Follows id w.moments w.store d) w :=
    ⟨[], row, rfl, rfl, hrow, DocumentRow.shows_iff.mp (DocumentRow.shows_of_read hrowRead).1⟩
  have hw₁ := (Keeps.ask hI (c := .getDocument id) rfl (fun _ _ => rfl) (·.getDocument id) w hw).1
  rw [hget] at hw₁
  have hasked : Keeps s _ (pending id) := pending_keeps hI rfl
  have hw₂ := (hasked w₁ hw₁).1
  rw [hpending] at hw₂
  have hw₃ := (openScratch_keeps (s := s) w₂ hw₂).1
  rw [hopen] at hw₃
  exact hw₃

/-- As a step of a pass begins and however it ends, whatever calls have failed so far, its copy has the
fields of the row of its document, but for the language: that is the one which was last to be stored,
if the call that was to store it was not carried out and nothing has stored the copy since.  It is this
copy that the last step publishes. -/
theorem copy_follows_row {w : World} {result : Except (Interruption PipelineError) Unit}
    (halone : s.Alone) (hr : s.registry.ActsBuiltin)
    (hbegins : BeginsIn Handler.ofStep id s w t began)
    (hrun : Handler.ofStep s.scratch t s began = (result, ended)) (hgoes : result ≠ .error .stop) :
    (∀ desk, desk = began ∨ desk = ended → ∃ since row,
      desk.world.moments = since ++ w.moments ∧
      desk.world.store.documentRow? id = some row ∧
      DocumentRow.Shows { row with lang := desk.copy.lang } desk.copy ∧
      desk.copy.lang = (s.ahead? id w.moments w.store since).getD row.lang ∧
      (row.Shows desk.copy ∨ s.Unstored id w.moments w.store desk.copy.lang since)) ∧
    (t = .ftsIndex → ended.world.offered = began.world.offered ∨
      ended.world.offered = ended.copy :: began.world.offered) := by
  obtain ⟨d, w₁, steps, w₂, w₃, hget, hpending, hopen, hbegins⟩ := hbegins
  have hbegan : s.Tracks id w.moments w.store began :=
    tracks_of_begins halone hr hbegins (tracks_of_opened halone hget hpending hopen)
  have hended := Handler.ofStep_lands halone hr s.scratch t began hbegan
  rw [hrun] at hended
  constructor
  · rintro desk (rfl | rfl)
    · exact hbegan.row
    · exact (hended hgoes).row
  · rintro rfl
    have hoffered := Handler.ftsIndex_offered s began
    have hfts : Handler.ftsIndex s began = (result, ended) := hrun
    rwa [hfts] at hoffered

end Pass

/-! ### Rows that wait -/

theorem JobRow.read_pending {id : String} {t : Step} {now : Instant} (hplain : now.HasPlainYear) :
    ∃ b, (JobRow.pending id t now).read = .ok b := by
  have hstep : readNamed 1 Step.ofName? Step.unknownMessage t.name = .ok t := by
    cases t <;> rfl
  have hmoment : readMoment 4 now.toMicrosText = .ok now.truncate := by
    rw [readMoment_toMicrosText, if_pos hplain]
  refine ⟨{ documentId := id, step := t, status := .pending, message := none,
            createdAt := now.truncate, startedAt := none, stoppedAt := none }, ?_⟩
  simp only [read, pending, hstep, hmoment]
  rfl

/-- Rows that wait, given in the order of their steps, are read in it. -/
theorem Store.pendingJobs_of_waiting {st : Store} {id : String} {steps : List Step} {now : Instant}
    (hplain : now.HasPlainYear)
    (hjobs : st.jobs = steps.map fun t => .pending id t now)
    (hsteps : steps.Pairwise fun t u => t.position < u.position) :
    ∃ jobs, st.pendingJobs id = .ok jobs ∧ jobs.map (·.step) = steps := by
  have hkeyed : st.Keyed := by
    rw [Keyed, hjobs, List.pairwise_map]
    refine hsteps.imp fun hlt hsame => ?_
    rw [Step.name_injective hsame.2] at hlt
    exact Nat.lt_irrefl _ hlt
  obtain ⟨jobs, hread⟩ : ∃ jobs, st.pendingJobs id = .ok jobs := by
    refine readJobs_ok fun r hr => ?_
    rw [hjobs] at hr
    obtain ⟨t, -, rfl⟩ := List.mem_map.mp (List.mem_of_mem_filter hr)
    exact JobRow.read_pending hplain
  refine ⟨jobs, hread, pendingSteps_eq hkeyed hread hsteps fun t => ?_⟩
  simp only [mem_jobsFor, hjobs, List.mem_map, JobRow.isFor_iff]
  constructor
  · intro ht
    exact ⟨_, ⟨⟨t, ht, rfl⟩, rfl⟩, rfl, rfl, rfl⟩
  · rintro ⟨_, ⟨⟨u, hu, rfl⟩, -⟩, -, -, hname⟩
    rwa [← Step.name_injective hname]

/-! ### A language that is published and not stored -/

namespace Pass

/-- Bare surroundings in which all texts have one language, and the store carries out no call that is
to store a document. -/
def reluctant : Surroundings :=
  { Surroundings.bare with
    language := {}
    identify := fun _ => some "eng"
    refuses := fun _ call => (call.spoken? "d").map fun _ => .noDocument "d" }

/-- The document waits for its language and for the search index. -/
def unspoken : World where
  store :=
    { documents := [.ofDocument untitled]
      jobs := [.pending "d" .detectLanguage default, .pending "d" .ftsIndex default] }
  files := .empty

/-- The language is told and cannot be stored, and the last step begins and ends with it. -/
theorem begins_unspoken : ∃ began ended,
    BeginsIn Handler.ofStep "d" reluctant unspoken .ftsIndex began ∧
    Handler.ofStep reluctant.scratch .ftsIndex reluctant began = (.ok (), ended) ∧
    began.world.offered = [] ∧ ended.world.offered ≠ [] ∧ ended.copy.lang = "eng" ∧
    (ended.world.store.documentRow? "d").map (·.lang) = some "" := by
  have hplain : (default : Instant).HasPlainYear := by decide
  obtain ⟨jobs, hjobs, hsteps⟩ : ∃ jobs, unspoken.store.pendingJobs "d" = .ok jobs ∧
      jobs.map (·.step) = [.detectLanguage, .ftsIndex] :=
    Store.pendingJobs_of_waiting hplain rfl (by decide)
  let w₁ := unspoken.next reluctant (.call (.getDocument "d"))
  let w₂ := w₁.next reluctant (.call (.pendingSteps "d"))
  have hpending : pending "d" reluctant w₁ = (.ok [.detectLanguage, .ftsIndex], w₂) := by
    refine (Act.ask_of_go _ _ (fun _ _ => rfl) rfl).trans ?_
    change (((unspoken.store.pendingJobs "d").map _).mapError _, _) = _
    rw [hjobs, ← hsteps]
    rfl
  obtain ⟨w₃, hopen, hrun⟩ : ∃ w₃, openScratch reluctant w₂ = (.ok (), w₃) ∧
      let first := runStep (Handler.ofStep "/scratch" .detectLanguage) "d" .detectLanguage reluctant
        ⟨w₃, untitled⟩
      let last := begin "d" .ftsIndex reluctant first.2
      let ended := Handler.ofStep "/scratch" .ftsIndex reluctant last.2
      first.1.toOption = some none ∧ last.1.toOption = some () ∧ ended.1.toOption = some () ∧
        last.2.world.offered = [] ∧ ended.2.world.offered ≠ [] ∧ ended.2.copy.lang = "eng" ∧
        (ended.2.world.store.documentRow? "d").map (·.lang) = some "" :=
    ⟨_, rfl, by decide +kernel⟩
  rcases hfirst : runStep (Handler.ofStep "/scratch" .detectLanguage) "d" .detectLanguage reluctant
    ⟨w₃, untitled⟩ with ⟨i | r, desk⟩
  · rw [hfirst] at hrun
    cases hrun.1
  dsimp only at hrun
  rw [hfirst] at hrun
  rcases hlast : begin "d" .ftsIndex reluctant desk with ⟨i | u, began⟩
  · dsimp only at hrun
    rw [hlast] at hrun
    cases hrun.2.1
  dsimp only at hrun
  rw [hlast] at hrun
  rcases hended : Handler.ofStep "/scratch" .ftsIndex reluctant began with ⟨i | u', ended⟩
  · dsimp only at hrun
    rw [hended] at hrun
    cases hrun.2.2.1
  dsimp only at hrun
  rw [hended] at hrun
  obtain ⟨hgone, -, -, hnone, hsome, hlang, hrow⟩ := hrun
  cases hgone
  exact ⟨began, ended, ⟨untitled, w₁, _, w₂, w₃, rfl, hpending, hopen, .later hfirst (.here hlast)⟩,
    hended, hnone, hsome, hlang, hrow⟩

/-- What the last step publishes there, is left unstored. -/
theorem copy_follows_row_unspoken : ∃ (began ended : Desk) (since : List Moment),
    reluctant.Alone ∧ reluctant.registry.ActsBuiltin ∧
    BeginsIn Handler.ofStep "d" reluctant unspoken .ftsIndex began ∧
    Handler.ofStep reluctant.scratch .ftsIndex reluctant began = (.ok (), ended) ∧
    ended.copy.lang = "eng" ∧ ended.world.moments = since ++ unspoken.moments ∧
    reluctant.Unstored "d" unspoken.moments unspoken.store "eng" since ∧
    ended.world.offered = [ended.copy] := by
  obtain ⟨began, ended, hbegins, hrun, hnone, hsome, hlang, hstored⟩ := begins_unspoken
  have halone : reluctant.Alone := fun _ _ => rfl
  obtain ⟨hfollows, hoffered⟩ :=
    copy_follows_row halone builtin_actsBuiltin hbegins hrun (by simp)
  obtain ⟨since, row, hmoments, hrow, -, -, hahead⟩ := hfollows ended (.inr rfl)
  refine ⟨began, ended, since, halone, builtin_actsBuiltin, hbegins, hrun, hlang, hmoments, ?_, ?_⟩
  · rcases hahead with hshows | hunstored
    · have hsame : row.lang = ended.copy.lang := congrArg DocumentRow.lang hshows.fields
      rw [hrow, Option.map_some, hsame, hlang] at hstored
      exact absurd (Option.some.inj hstored) (by decide)
    · rwa [hlang] at hunstored
  · rw [hnone] at hoffered
    exact (hoffered rfl).resolve_left hsome

/-- The last step of a pass publishes a language that is not stored: the call that was to store it has
failed. -/
theorem unspoken_published : ∃ began ended row,
    BeginsIn Handler.ofStep "d" reluctant unspoken .ftsIndex began ∧
    Handler.ofStep reluctant.scratch .ftsIndex reluctant began = (.ok (), ended) ∧
    ended.world.store.documentRow? "d" = some row ∧ row.lang ≠ ended.copy.lang ∧
    ended.world.offered = [ended.copy] := by
  obtain ⟨began, ended, hbegins, hrun, hnone, hsome, hlang, hstored⟩ := begins_unspoken
  obtain ⟨row, hrow, hempty⟩ := Option.map_eq_some_iff.mp hstored
  refine ⟨began, ended, row, hbegins, hrun, hrow, ?_, ?_⟩
  · rw [hempty, hlang]
    decide
  · have hoffered := Handler.ftsIndex_offered reluctant began
    have hfts : Handler.ftsIndex reluctant began = (.ok (), ended) := hrun
    rw [hfts, hnone] at hoffered
    exact hoffered.resolve_left hsome

end Pass

end Docket
