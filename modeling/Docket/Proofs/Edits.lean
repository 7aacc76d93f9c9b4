import Docket.Proofs.Outcome

/-!
What the steps before the last make of a copy and of the store, where no call fails and
nobody else writes to the store.  Each leaves both as they are, or it changes the copy and
stores what it has changed.
-/

namespace Docket

open Docket.Calendar (Instant)

/-- The process does not stop, the store refuses nothing, and nobody else writes to it. -/
structure Surroundings.Quiet (s : Surroundings) : Prop where
  goes : ∀ past, s.stops past = false
  heeds : ∀ past c, s.refuses past c = none
  alone : ∀ past st, s.others past st = st

namespace Surroundings.Quiet

variable {α : Type} {s : Surroundings} {c : StoreCall} {desk : Desk} {st' : Store}

theorem next_store_of_ok (hquiet : s.Quiet)
    (h : c.perform (s.clock desk.world.moments) desk.world.store = .ok st') :
    (desk.next s (.call c)).world.store = st' := by
  rw [Desk.next_store]
  apply after_of_heeded (hquiet.heeds _ c)
  rwa [hquiet.alone]

theorem tell_of_ok (hquiet : s.Quiet)
    (h : c.perform (s.clock desk.world.moments) desk.world.store = .ok st') :
    Act.onWorld (.tell c) s desk = (.ok (), desk.next s (.call c)) := by
  have hverdict : s.verdict desk.world.moments desk.world.store c = .ok () := by
    simp only [verdict, hquiet.heeds, hquiet.alone, h]
  simp only [Act.onWorld, Act.within, Act.tell_of_go c (hquiet.goes _), hverdict]
  rfl

theorem tell_of_error (hquiet : s.Quiet) {e : StoreError}
    (h : c.perform (s.clock desk.world.moments) desk.world.store = .error e) :
    Act.onWorld (.tell c) s desk =
      (.error (.error (.store e)), desk.next s (.call c)) ∧
    (desk.next s (.call c)).world.store = desk.world.store := by
  have hverdict : s.verdict desk.world.moments desk.world.store c =
      .error (.error (.store e)) := by
    simp only [verdict, hquiet.heeds, hquiet.alone, h]
  refine ⟨?_, ?_⟩
  · simp only [Act.onWorld, Act.within, Act.tell_of_go c (hquiet.goes _), hverdict]
    rfl
  · simp only [Desk.next_store, after, hquiet.heeds, hquiet.alone, h, Option.isSome_none,
      Bool.false_eq_true, ↓reduceIte]
    rfl

theorem ask_eq (hquiet : s.Quiet) (desk : Desk) (hasks : ∀ now st, c.perform now st = .ok st)
    (run : Store → Except StoreError α) :
    Act.onWorld (.ask c run) s desk =
      ((run desk.world.store).mapError fun e => .error (.store e),
        desk.next s (.call c)) := by
  simp only [Act.onWorld, Act.within, Act.ask_of_go c run hasks (hquiet.goes _),
    hquiet.heeds, hquiet.alone]
  rfl

theorem next_store_of_ask (hquiet : s.Quiet) (desk : Desk)
    (hasks : ∀ now st, c.perform now st = .ok st) :
    (desk.next s (.call c)).world.store = desk.world.store :=
  hquiet.next_store_of_ok (hasks _ _)

end Surroundings.Quiet

/-! Work that changes neither what is stored nor what was handed to the search index. -/

/-- A desk that differs from another neither in the copy nor in what is stored and was
handed to the search index. -/
structure Desk.Still (desk desk' : Desk) : Prop where
  copy : desk'.copy = desk.copy
  store : desk'.world.store = desk.world.store
  offered : desk'.world.offered = desk.world.offered

namespace Desk.Still

open Act (Keeps)

variable {α : Type} {s : Surroundings} {desk : Desk} {x : Act World α}

/-- A world with a store, and with what was handed to the search index. -/
def Shows (desk : Desk) (w : World) : Prop :=
  w.store = desk.world.store ∧ w.offered = desk.world.offered

theorem onWorld {Q : α → Prop} (hx : Keeps s (Shows desk) x Q) :
    Keeps s desk.Still (Act.onWorld x) Q :=
  .within (fun _ h => ⟨h.store, h.offered⟩) (fun _ _ h hw => ⟨h.copy, hw.1, hw.2⟩) hx

theorem copy_keeps : Keeps s desk.Still Act.copy (· = desk.copy) :=
  .bind .state fun _ h => .pure h.copy

theorem effect (e : FileEffect) : Keeps s (Shows desk) (Act.effect e) := by
  intro w hw
  refine ⟨?_, fun _ _ => trivial⟩
  unfold Act.effect
  split
  · exact hw
  · dsimp only
    split <;> exact hw

theorem carryOut (plan : FileTree → Except StorageError (List FileEffect × String)) :
    Keeps s (Shows desk) (Act.carryOut plan) := by
  have heffects : ∀ effects : List FileEffect,
      Keeps s (Shows desk) (effects.forM Act.effect) := by
    intro effects
    induction effects with
    | nil => exact .pure trivial
    | cons e rest ih => exact .bind (effect e) fun _ _ => ih
  exact .bind .state fun _ _ => .bind (.ofExcept _ _) fun a _ =>
    .bind (heffects a.1) fun _ _ => .pure trivial

theorem extract (x : Extraction α) : Keeps s (Shows desk) (Act.extract x) :=
  fun _ hw => ⟨hw, fun _ _ => trivial⟩

theorem identify (sample : String) : Keeps s (Shows desk) (Handler.identify sample) :=
  .bind .surroundings fun _ _ => .bind (.change fun _ hw => hw) fun _ _ => .pure trivial

theorem next_of_ask (hquiet : s.Quiet) {c : StoreCall}
    (hasks : ∀ now st, c.perform now st = .ok st) {desk' : Desk} (h : desk.Still desk') :
    desk.Still (desk'.next s (.call c)) :=
  ⟨h.copy, (hquiet.next_store_of_ask _ hasks).trans h.store, h.offered⟩

theorem ask (hquiet : s.Quiet) {c : StoreCall} (hasks : ∀ now st, c.perform now st = .ok st)
    (run : Store → Except StoreError α) :
    Keeps s desk.Still (Act.onWorld (.ask c run)) fun a => run desk.world.store = .ok a := by
  intro desk' h'
  rw [hquiet.ask_eq _ hasks, h'.store]
  refine ⟨next_of_ask hquiet hasks h', fun a ha => ?_⟩
  cases hrun : run desk.world.store with
  | error e =>
      rw [hrun] at ha
      cases ha
  | ok b =>
      rw [hrun] at ha
      cases ha
      rfl

end Desk.Still

/-! The edits of the steps before the last. -/

/-- A copy with what is stored of its entries, the values found in it, and what the rules
of its owner make of it. -/
def Document.ruled (d : Document) (r : Registry) (entries : List Entry)
    (values : List AutoMatchValue) (rules : List Rule) : Document :=
  Handler.applyRules r (({ d with metadata := some entries } : Document).autoMatch values).1 rules

/-- What a step before the last makes of a copy and of the store. -/
inductive Edit (r : Registry) (d : Document) (st : Store) : Step → Document → Store → Prop
  | none (t : Step) : Edit r d st t d st
  | rehashed (hash : String) (files : FileTree) (path : String) (now : Instant) :
      Edit r d st .hash (Handler.rehashed d hash files path)
        (st.updateDocument (Handler.rehashed d hash files path) now).2
  | content (text : String) (now : Instant) :
      Edit r d st .parseContent { d with content := text } (st.setContent d.id text now).2
  | lang (lang : String) (now : Instant) :
      Edit r d st .detectLanguage { d with lang := lang }
        (st.updateDocument { d with lang := lang } now).2
  | rules {rules : List Rule} {values : List AutoMatchValue} {updated : Document}
      {st' : Store} (now : Instant) (hrules : st.activeRules d.userId = .ok rules)
      (hvalues : st.autoMatchValues d.userId = .ok values)
      (hupdated : updated = d.ruled r (st.documentEntries d.id) values rules)
      (hstored : st.updateWithEntries updated (updated.entries.map Entry.ids) now =
        .ok (true, st')) : Edit r d st .rules updated st'

/-- The desk after a step before the last was at work. -/
structure Desk.Edited (r : Registry) (t : Step) (desk desk' : Desk) : Prop where
  edit : Edit r desk.copy desk.world.store t desk'.copy desk'.world.store
  offered : desk'.world.offered = desk.world.offered

theorem Desk.Still.edited {desk desk' : Desk} {r : Registry} {t : Step} (h : desk.Still desk') :
    desk.Edited r t desk' := by
  refine ⟨?_, h.offered⟩
  rw [h.copy, h.store]
  exact .none t

/-- Work leads from states of a kind to states of another. -/
def Act.Leads {σ α : Type} (s : Surroundings) (J K : σ → Prop) (x : Act σ α) : Prop :=
  ∀ w, J w → K (x s w).2

namespace Act.Leads

variable {σ α β : Type} {s : Surroundings} {J K : σ → Prop} {Q : α → Prop}

theorem of_keeps {x : Act σ α} (hx : Keeps s J x Q) (hK : ∀ w, J w → K w) :
    Leads s J K x :=
  fun w hw => hK _ (hx w hw).1

theorem pure (a : α) (hK : ∀ w, J w → K w) : Leads s J K (Pure.pure a) :=
  hK

theorem bind {x : Act σ α} {f : α → Act σ β} (hx : Keeps s J x Q) (hK : ∀ w, J w → K w)
    (hf : ∀ a, Q a → Leads s J K (f a)) : Leads s J K (x >>= f) := by
  intro w hw
  have hxw := hx w hw
  rcases heq : x s w with ⟨i | a, w'⟩
  · rw [heq] at hxw
    rw [bind_of_error heq]
    exact hK _ hxw.1
  · rw [heq] at hxw
    rw [bind_of_ok heq]
    exact hf a (hxw.2 a rfl) w' hxw.1

end Act.Leads

theorem orNoDocument_changeDocument {st : Store} {id : String} (f : DocumentRow → DocumentRow)
    (hdoc : st.hasDocument id = true) :
    Store.orNoDocument id (st.changeDocument id f) = .ok (st.changeDocument id f).2 := by
  unfold Store.changeDocument
  rw [hdoc]
  rfl

namespace Handler

open Act (Keeps Leads)

variable {s : Surroundings} {desk : Desk}

/-- Storing a document that is stored succeeds. -/
theorem store_of_quiet (hquiet : s.Quiet) (desk : Desk) {d : Document}
    (hdoc : desk.world.store.hasDocument d.id = true) :
    store d s desk = (.ok (), desk.next s (.call (.updateDocument d))) ∧
      (desk.next s (.call (.updateDocument d))).world.store =
        (desk.world.store.updateDocument d (s.clock desk.world.moments)).2 := by
  have hperform : (StoreCall.updateDocument d).perform (s.clock desk.world.moments)
      desk.world.store =
        .ok (desk.world.store.updateDocument d (s.clock desk.world.moments)).2 :=
    orNoDocument_changeDocument _ hdoc
  exact ⟨hquiet.tell_of_ok hperform, hquiet.next_store_of_ok hperform⟩

theorem hash_edits (hquiet : s.Quiet)
    (hdoc : desk.world.store.hasDocument desk.copy.id = true) :
    Leads s desk.Still (desk.Edited s.registry .hash) hash := by
  have hstill : ∀ desk', desk.Still desk' → desk.Edited s.registry .hash desk' :=
    fun _ h => h.edited
  unfold hash
  refine .bind .surroundings hstill fun _ _ => ?_
  refine .bind Desk.Still.copy_keeps hstill fun d hd => ?_
  subst hd
  refine .bind (.ofExcept _ _) hstill fun path _ => ?_
  refine .bind .state hstill fun _ _ => ?_
  refine .bind (.ofExcept _ _) hstill fun hash _ => ?_
  split
  · exact .pure () hstill
  · refine .bind (Desk.Still.onWorld (Desk.Still.carryOut _)) hstill fun target _ => ?_
    refine .bind .state hstill fun seen _ => ?_
    intro desk' h'
    let moved := rehashed desk.copy hash seen.world.files target
    have hdoc' : desk'.world.store.hasDocument moved.id = true := by
      rw [h'.store]
      exact hdoc
    obtain ⟨hok, hstore⟩ := store_of_quiet hquiet desk' hdoc'
    rw [Act.bind_of_ok (Act.attempt_of_ok hok)]
    refine ⟨?_, h'.offered⟩
    change Edit s.registry _ _ .hash moved (desk'.next s _).world.store
    rw [hstore, h'.store]
    exact .rehashed _ _ _ _

theorem thumbnail_edits (scratch : String) :
    Leads s desk.Still (desk.Edited s.registry .thumbnail) (thumbnail scratch) := by
  refine .of_keeps (Q := fun _ => True) ?_ fun _ h => h.edited
  unfold thumbnail
  refine .bind .surroundings fun _ _ => ?_
  refine .bind Desk.Still.copy_keeps fun d _ => ?_
  split
  · exact .pure trivial
  · refine .bind (.ofExcept _ _) fun source _ => ?_
    refine .bind (.ofExcept _ _) fun target _ => ?_
    exact .bind (Desk.Still.onWorld (Desk.Still.extract _)) fun _ _ => .pure trivial

theorem parseContent_edits (hquiet : s.Quiet)
    (hdoc : desk.world.store.hasDocument desk.copy.id = true) (scratch : String) :
    Leads s desk.Still (desk.Edited s.registry .parseContent) (parseContent scratch) := by
  have hstill : ∀ desk', desk.Still desk' → desk.Edited s.registry .parseContent desk' :=
    fun _ h => h.edited
  unfold parseContent
  refine .bind .surroundings hstill fun _ _ => ?_
  refine .bind Desk.Still.copy_keeps hstill fun d hd => ?_
  subst hd
  refine .bind (.ofExcept _ _) hstill fun path _ => ?_
  refine .bind (Desk.Still.onWorld (Desk.Still.extract _)) hstill fun text _ => ?_
  intro desk' h'
  have hperform : (StoreCall.setContent desk.copy.id (Text.normalize text)).perform
      (s.clock desk'.world.moments) desk'.world.store =
        .ok (desk'.world.store.setContent desk.copy.id (Text.normalize text)
          (s.clock desk'.world.moments)).2 :=
    orNoDocument_changeDocument _ (by rw [h'.store]; exact hdoc)
  dsimp only
  rw [Act.bind_of_ok (hquiet.tell_of_ok hperform)]
  refine ⟨?_, h'.offered⟩
  change Edit s.registry _ _ .parseContent { desk.copy with content := Text.normalize text }
    (desk'.next s _).world.store
  rw [hquiet.next_store_of_ok hperform, h'.store]
  exact .content _ _

theorem detectLanguage_edits (hquiet : s.Quiet)
    (hdoc : desk.world.store.hasDocument desk.copy.id = true) :
    Leads s desk.Still (desk.Edited s.registry .detectLanguage) detectLanguage := by
  have hstill : ∀ desk', desk.Still desk' → desk.Edited s.registry .detectLanguage desk' :=
    fun _ h => h.edited
  unfold detectLanguage
  refine .bind .surroundings hstill fun _ _ => ?_
  refine .bind Desk.Still.copy_keeps hstill fun d hd => ?_
  subst hd
  split
  · exact .pure () hstill
  · dsimp only
    split
    · exact .pure () hstill
    · refine .bind (Desk.Still.onWorld (Desk.Still.identify _)) hstill fun found _ => ?_
      cases found with
      | none => exact .pure () hstill
      | some lang =>
          intro desk' h'
          let spoken : Document := { desk.copy with lang := lang }
          let copied : Desk := { desk' with copy := spoken }
          have hdoc' : copied.world.store.hasDocument spoken.id = true := by
            change desk'.world.store.hasDocument _ = true
            rw [h'.store]
            exact hdoc
          have hcopied : Act.setCopy spoken s desk' = (.ok (), copied) := rfl
          obtain ⟨hok, hstore⟩ := store_of_quiet hquiet copied hdoc'
          dsimp only
          rw [Act.bind_of_ok hcopied, hok]
          refine ⟨?_, h'.offered⟩
          change Edit s.registry _ _ .detectLanguage spoken (copied.next s _).world.store
          rw [hstore]
          change Edit s.registry _ _ .detectLanguage spoken
            (desk'.world.store.updateDocument spoken _).2
          rw [h'.store]
          exact .lang _ _

theorem rules_edits (hquiet : s.Quiet) :
    Leads s desk.Still (desk.Edited s.registry .rules) rules := by
  have hstill : ∀ desk', desk.Still desk' → desk.Edited s.registry .rules desk' :=
    fun _ h => h.edited
  unfold rules
  refine .bind .surroundings hstill fun s' hs => ?_
  subst s'
  refine .bind Desk.Still.copy_keeps hstill fun d hd => ?_
  subst hd
  refine .bind (Desk.Still.ask hquiet (c := .activeRules _) (fun _ _ => rfl) _) hstill
    fun rules hrules => ?_
  refine .bind (Desk.Still.ask hquiet (c := .documentEntries _) (fun _ _ => rfl) _) hstill
    fun entries hentries => ?_
  refine .bind (Desk.Still.ask hquiet (c := .autoMatchValues _) (fun _ _ => rfl) _) hstill
    fun values hvalues => ?_
  cases hentries
  intro desk' h'
  let updated := desk.copy.ruled s.registry (desk.world.store.documentEntries desk.copy.id)
    values rules
  change desk.Edited s.registry .rules
    ((Act.onWorld (.tell (.updateWithEntries updated)) >>= fun _ => Act.setCopy updated)
      s desk').2
  let now := s.clock desk'.world.moments
  cases hperform : (StoreCall.updateWithEntries updated).perform now desk'.world.store with
  | error e =>
      obtain ⟨herror, hstore⟩ := hquiet.tell_of_error hperform
      rw [Act.bind_of_error herror]
      exact hstill _ ⟨h'.copy, hstore.trans h'.store, h'.offered⟩
  | ok st' =>
      rw [Act.bind_of_ok (hquiet.tell_of_ok hperform)]
      refine ⟨?_, h'.offered⟩
      change Edit s.registry _ _ .rules updated (desk'.next s _).world.store
      rw [hquiet.next_store_of_ok hperform]
      obtain ⟨⟨stored, st''⟩, hstored, hthere⟩ := exists_of_bind_ok hperform
      obtain ⟨rfl, rfl⟩ := orNoDocument_ok hthere
      rw [h'.store] at hstored
      exact .rules now hrules hvalues rfl hstored

/-- Where the rules and the values can be read, and what they make of the copy can be
stored, it is. -/
theorem rules_of_quiet (hquiet : s.Quiet) (desk : Desk) {rules : List Rule}
    {values : List AutoMatchValue}
    (hrules : desk.world.store.activeRules desk.copy.userId = .ok rules)
    (hvalues : desk.world.store.autoMatchValues desk.copy.userId = .ok values)
    {updated : Document} (hupdated : desk.copy.ruled s.registry
      (desk.world.store.documentEntries desk.copy.id) values rules = updated)
    (hstored : ∀ now, ∃ st',
      (StoreCall.updateWithEntries updated).perform now desk.world.store = .ok st') :
    ∃ desk' now, Handler.rules s desk = (.ok (), desk') ∧ desk'.copy = updated ∧
      (StoreCall.updateWithEntries updated).perform now desk.world.store =
        .ok desk'.world.store := by
  let d := desk.copy
  let asked₁ := desk.next s (.call (.activeRules d.userId))
  let asked₂ := asked₁.next s (.call (.documentEntries d.id))
  let asked₃ := asked₂.next s (.call (.autoMatchValues d.userId))
  have hstore₁ : asked₁.world.store = desk.world.store :=
    hquiet.next_store_of_ask desk fun _ _ => rfl
  have hstore₂ : asked₂.world.store = desk.world.store :=
    (hquiet.next_store_of_ask asked₁ fun _ _ => rfl).trans hstore₁
  have hstore₃ : asked₃.world.store = desk.world.store :=
    (hquiet.next_store_of_ask asked₂ fun _ _ => rfl).trans hstore₂
  have hask₁ : Act.onWorld (.ask (.activeRules d.userId) (·.activeRules d.userId)) s desk =
      (.ok rules, asked₁) := by
    rw [hquiet.ask_eq desk fun _ _ => rfl, hrules]
    rfl
  have hask₂ : Act.onWorld (.ask (.documentEntries d.id) fun st => .ok (st.documentEntries d.id))
      s asked₁ = (.ok (desk.world.store.documentEntries d.id), asked₂) := by
    rw [hquiet.ask_eq asked₁ fun _ _ => rfl, hstore₁]
    rfl
  have hask₃ : Act.onWorld (.ask (.autoMatchValues d.userId) (·.autoMatchValues d.userId)) s
      asked₂ = (.ok values, asked₃) := by
    rw [hquiet.ask_eq asked₂ fun _ _ => rfl, hstore₂, hvalues]
    rfl
  obtain ⟨st', hperform⟩ := hstored (s.clock asked₃.world.moments)
  rw [← hstore₃] at hperform
  let told := asked₃.next s (.call (.updateWithEntries updated))
  have htell : Act.onWorld (.tell (.updateWithEntries updated)) s asked₃ = (.ok (), told) :=
    hquiet.tell_of_ok hperform
  refine ⟨{ told with copy := updated }, s.clock asked₃.world.moments, ?_, rfl, ?_⟩
  · have hsurroundings : Act.surroundings s desk = (.ok s, desk) := rfl
    have hcopy : Act.copy s desk = (.ok d, desk) := rfl
    unfold Handler.rules
    rw [Act.bind_of_ok hsurroundings, Act.bind_of_ok hcopy, Act.bind_of_ok hask₁,
      Act.bind_of_ok hask₂, Act.bind_of_ok hask₃]
    subst hupdated
    exact Act.bind_of_ok htell
  · rw [← hstore₃]
    exact hperform.trans (congrArg Except.ok (hquiet.next_store_of_ok hperform).symm)

/-- Each step before the last edits the copy and the store alike. -/
theorem ofStep_edits (hquiet : s.Quiet)
    (hdoc : desk.world.store.hasDocument desk.copy.id = true) (scratch : String) {t : Step}
    (ht : t ≠ .ftsIndex) : desk.Edited s.registry t (ofStep scratch t s desk).2 := by
  have hself : desk.Still desk := ⟨rfl, rfl, rfl⟩
  cases t with
  | hash => exact hash_edits hquiet hdoc desk hself
  | thumbnail => exact thumbnail_edits scratch desk hself
  | parseContent => exact parseContent_edits hquiet hdoc scratch desk hself
  | detectLanguage => exact detectLanguage_edits hquiet hdoc desk hself
  | rules => exact rules_edits hquiet desk hself
  | ftsIndex => exact absurd rfl ht

end Handler

end Docket
