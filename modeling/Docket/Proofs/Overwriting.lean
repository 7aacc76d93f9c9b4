import Docket.Proofs.Mirror

/-!
What becomes of an edit that another client makes to the row of a document in the middle
of a pass over it.  The pass works on a copy that it read before, and each time it stores
the copy it stores every column of it, so that a column keeps the value of the edit until
the copy is stored, and has the value of the copy from then on.
-/

namespace Docket

open Docket.Calendar (Instant)

/-- A column of documents that a client can write. -/
inductive Column where
  | name
  | description
  | content
  | filename
  | hash
  | mimetype
  | size
  | date
  | lang
  | status
deriving DecidableEq, Repr

namespace Column

/-- What stands in a column. -/
def Value : Column → Type
  | .size => Int
  | _ => String

/-- The step that computes what it stores in a column.  Which columns the rules compute is the
affair of their actions. -/
def maker? : Column → Option Step
  | .hash | .size => some .hash
  | .content => some .parseContent
  | .lang => some .detectLanguage
  | _ => none

/-- A text as a value of the column of contents. -/
def content? : (c : Column) → String → Option c.Value
  | .content, text => some text
  | _, _ => none

/-- A text as a value of the column of states. -/
def status? : (c : Column) → String → Option c.Value
  | .status, text => some text
  | _, _ => none

end Column

/-- What stands in a column of a row. -/
def DocumentRow.get (r : DocumentRow) : (c : Column) → c.Value
  | .name => r.name
  | .description => r.description
  | .content => r.content
  | .filename => r.filename
  | .hash => r.hash
  | .mimetype => r.mimetype
  | .size => r.size
  | .date => r.date
  | .lang => r.lang
  | .status => r.status

/-- What a column holds once a document is stored. -/
def Document.get (d : Document) (c : Column) : c.Value := (DocumentRow.ofDocument d).get c

/-- What stands in a column of the row of a document. -/
def Store.column? (st : Store) (id : String) (c : Column) : Option c.Value :=
  (st.documentRow? id).map (·.get c)

/-- What a call writes to a column of the row of a document, if it writes it at all. -/
def StoreCall.written? (id : String) (c : Column) : StoreCall → Option c.Value
  | .updateDocument d | .updateWithEntries d => if d.id = id then some (d.get c) else none
  | .setContent i text => if i = id then c.content? text else none
  | .setStatus i status => if i = id then c.status? status.name else none
  | _ => none

section

variable {id : String} {c : Column}

theorem DocumentRow.get_withFieldsOf (r : DocumentRow) (d : Document) (now : Instant)
    (c : Column) : (r.withFieldsOf d now).get c = (some (d.get c)).getD (r.get c) := by
  cases c <;> rfl

theorem DocumentRow.get_withContent (r : DocumentRow) (text moment : String) (c : Column) :
    ({ r with content := text, updatedAt := moment } : DocumentRow).get c =
      (c.content? text).getD (r.get c) := by
  cases c <;> rfl

theorem DocumentRow.get_withStatus (r : DocumentRow) (text moment : String) (c : Column) :
    ({ r with status := text, updatedAt := moment } : DocumentRow).get c =
      (c.status? text).getD (r.get c) := by
  cases c <;> rfl

/-- A change of one row, seen in a column. -/
theorem Store.column?_changeDocument {st : Store} {i : String} {f : DocumentRow → DocumentRow}
    {written : Option c.Value} (hf : ∀ r, (f r).id = r.id)
    (hget : ∀ r : DocumentRow, (f r).get c = written.getD (r.get c)) :
    (st.changeDocument i f).2.column? id c =
      (st.column? id c).map ((if i = id then written else none).getD ·) := by
  rw [column?, column?, documentRow?_changeDocument hf]
  cases hrow : st.documentRow? id with
  | none => rfl
  | some r =>
      simp only [Option.map_some, id_of_documentRow? hrow]
      by_cases hi : id = i
      · rw [if_pos hi, if_pos hi.symm, hget]
      · rw [if_neg hi, if_neg (Ne.symm hi), Option.getD_none]

/-- A call that is carried out leaves in a column what it writes there. -/
theorem StoreCall.column?_perform {call : StoreCall} {now : Instant} {st st' : Store}
    (h : call.perform now st = .ok st') :
    st'.column? id c = (st.column? id c).map ((call.written? id c).getD ·) := by
  have hsame : ∀ st'' : Store, st''.documents = st.documents →
      st''.column? id c = (st.column? id c).map ((none : Option c.Value).getD ·) := by
    intro st'' hdocuments
    simp only [Store.column?, Store.documentRow?, hdocuments, Option.getD_none, Option.map_id']
  cases call with
  | setStatus i status =>
      obtain ⟨-, rfl⟩ := orNoDocument_ok h
      exact Store.column?_changeDocument (by simp) fun r => r.get_withStatus _ _ c
  | setContent i text =>
      obtain ⟨-, rfl⟩ := orNoDocument_ok h
      exact Store.column?_changeDocument (by simp) fun r => r.get_withContent _ _ c
  | updateDocument d =>
      obtain ⟨-, rfl⟩ := orNoDocument_ok h
      exact Store.column?_changeDocument (fun _ => rfl) fun r => r.get_withFieldsOf d now c
  | updateWithEntries d =>
      obtain ⟨⟨stored, st''⟩, hr, h⟩ := exists_of_bind_ok h
      obtain ⟨rfl, rfl⟩ := orNoDocument_ok h
      rw [(Store.updateWithEntries_true hr).2]
      have hstored : (st.updateDocument d now).2.column? id c = _ :=
        Store.column?_changeDocument (fun _ => rfl) fun r => r.get_withFieldsOf d now c
      exact hstored
  | startJob | finishJob | requeueJob | clearJob | cancelJobs =>
      cases h
      exact hsame _ rfl
  | getDocument | pendingSteps | activeRules | documentEntries | autoMatchValues
  | documentTags =>
      cases h
      exact hsame _ rfl

end

namespace Surroundings

variable {s : Surroundings} {id : String} {c : Column} {base past : List Moment} {st₀ st : Store}

/-- Whether the store carries out a call. -/
def heeds (s : Surroundings) (past : List Moment) (st : Store) (call : StoreCall) : Bool :=
  (s.refuses past call).isNone &&
    (call.perform (s.clock past) (s.others past st)).toOption.isSome

/-- What a moment writes to a column of the row of a document, if it writes it at all. -/
def written? (s : Surroundings) (id : String) (c : Column) (past : List Moment) (st : Store) :
    Moment → Option c.Value
  | .call call => if s.heeds past st call then call.written? id c else none
  | .effect _ => none

/-- What was last written to a column of the row of a document since some past. -/
def lastWritten? (s : Surroundings) (id : String) (c : Column) (base : List Moment)
    (st₀ : Store) : List Moment → Option c.Value
  | [] => none
  | m :: since => (s.written? id c (since ++ base) (s.replay base st₀ since) m).or
      (s.lastWritten? id c base st₀ since)

theorem column?_after (s : Surroundings) (past : List Moment) (st : Store) (call : StoreCall) :
    (s.after past st (.call call)).column? id c =
      ((s.others past st).column? id c).map ((s.written? id c past st (.call call)).getD ·) := by
  rw [written?]
  cases hrefuse : s.refuses past call with
  | some e =>
      have hheeds : s.heeds past st call = false := by simp [heeds, hrefuse]
      simp [after_of_refused hrefuse, hheeds]
  | none =>
      cases hperform : call.perform (s.clock past) (s.others past st) with
      | error e =>
          have hheeds : s.heeds past st call = false := by
            simp [heeds, hperform, Except.toOption]
          simp [after, hperform, hheeds, Except.toOption]
      | ok st' =>
          have hheeds : s.heeds past st call = true := by
            simp [heeds, hrefuse, hperform, Except.toOption]
          rw [after_of_heeded hrefuse hperform, StoreCall.column?_perform hperform, hheeds]
          rfl

/-- Others leave a column of the row of a document alone after some past. -/
def LeavesSince (s : Surroundings) (id : String) (c : Column) (base : List Moment) : Prop :=
  ∀ past st, base.length < past.length → (s.others past st).column? id c = st.column? id c

/-- What others have written before a call stands in a column until the pass writes it, and after
that what the pass has written last. -/
theorem LeavesSince.column?_replay (h : s.LeavesSince id c base) (later : List Moment)
    (call : StoreCall) :
    (s.replay base st₀ (later ++ [.call call])).column? id c =
      ((s.others base st₀).column? id c).map
        ((s.lastWritten? id c base st₀ (later ++ [.call call])).getD ·) := by
  induction later with
  | nil =>
      simp only [List.nil_append, replay, lastWritten?, Option.or_none]
      exact s.column?_after base st₀ call
  | cons m later ih =>
      rw [List.cons_append, replay, lastWritten?]
      cases m with
      | effect e =>
          rw [written?, Option.none_or]
          exact ih
      | call call' =>
          rw [column?_after, h _ _ (by simp; omega), ih, Option.map_map]
          congr 1
          funext v
          cases s.written? id c _ _ (.call call') <;> rfl

/-- A past with a store that moments have led to from another, where all that was last written to a
column is of a kind. -/
def WritesOnly (s : Surroundings) (id : String) (c : Column) (P : c.Value → Prop)
    (base : List Moment) (st₀ : Store) (past : List Moment) (st : Store) : Prop :=
  ∃ since, past = since ++ base ∧ st = s.replay base st₀ since ∧
    ∀ v, s.lastWritten? id c base st₀ since = some v → P v

theorem maintains_writesOnly (P : c.Value → Prop) :
    s.Maintains (Moment.Calls fun call => ∀ v, call.written? id c = some v → P v)
      (s.WritesOnly id c P base st₀) := by
  rintro past st m hm ⟨since, rfl, rfl, hwritten⟩
  refine ⟨m :: since, rfl, rfl, fun v hv => ?_⟩
  rw [lastWritten?] at hv
  rcases Option.or_eq_some_iff.mp hv with hv | ⟨-, hv⟩
  · cases m with
    | effect e => cases hv
    | call call =>
        rw [written?] at hv
        split at hv
        · exact hm v hv
        · cases hv
  · exact hwritten v hv

theorem maintains_suffix (s : Surroundings) (kind : Moment → Prop) (base : List Moment) :
    s.Maintains kind fun past _ => base <:+ past :=
  fun _ _ m _ h => h.trans (List.suffix_cons m _)

end Surroundings

/-! ### What the rules compute -/

/-- No enabled action of an active rule of a user changes a column of a document, or its owner. -/
def Store.RulesSpare (st : Store) (r : Registry) (owner : Int) (c : Column) : Prop :=
  ∀ rules, st.activeRules owner = .ok rules → ∀ rule ∈ rules, ∀ a ∈ rule.actions,
    a.enabled = true → ∀ d d', r.apply a d = .ok d' → d'.userId = d.userId ∧ d'.get c = d.get c

theorem Store.activeRules_congr {st st' : Store} (hrules : st'.rules = st.rules)
    (hconditions : st'.conditions = st.conditions) (hactions : st'.actions = st.actions)
    (owner : Int) : st'.activeRules owner = st.activeRules owner := by
  simp only [activeRules, conditionsOf, actionsOf, hrules, hconditions, hactions]

/-- No call of a pass changes a rule. -/
theorem StoreCall.activeRules_perform {call : StoreCall} {now : Instant} {st st' : Store}
    (h : call.perform now st = .ok st') (owner : Int) :
    st'.activeRules owner = st.activeRules owner := by
  cases call with
  | setStatus | setContent | updateDocument =>
      obtain ⟨-, rfl⟩ := orNoDocument_ok h
      exact Store.activeRules_congr rfl rfl rfl owner
  | updateWithEntries d =>
      obtain ⟨⟨stored, st''⟩, hr, h⟩ := exists_of_bind_ok h
      obtain ⟨rfl, rfl⟩ := orNoDocument_ok h
      rw [(Store.updateWithEntries_true hr).2]
      exact Store.activeRules_congr rfl rfl rfl owner
  | startJob | finishJob | requeueJob | clearJob | cancelJobs =>
      cases h
      exact Store.activeRules_congr rfl rfl rfl owner
  | getDocument | pendingSteps | activeRules | documentEntries | autoMatchValues
  | documentTags =>
      cases h
      rfl

/-- A column that nothing still to come in a pass computes: no step that is still to be run, and no
action of a rule of the owner, whatever others do to the rules.  The state of a document is computed
at the end of a pass. -/
structure Column.Free (c : Column) (s : Surroundings) (owner : Int) (steps : List Step)
    (st : Store) : Prop where
  status : c ≠ .status
  made : ∀ t ∈ steps, c.maker? ≠ some t
  ruled : Step.rules ∈ steps → st.RulesSpare s.registry owner c
  others : Step.rules ∈ steps → ∀ past st, st.RulesSpare s.registry owner c →
    (s.others past st).RulesSpare s.registry owner c

/-- A step that stores the copy as a whole. -/
def Step.Overwrites (t : Step) : Prop := t = .hash ∨ t = .detectLanguage ∨ t = .rules

namespace Handler

open Act (Keeps)

variable {s : Surroundings} {id : String} {c : Column} {P : c.Value → Prop} {owner : Int}
  {v : c.Value} {I : List Moment → Store → Prop} {t : Step}

/-- A step that does not compute a column keeps it in the copy, and writes nothing else to it. -/
theorem ofStep_keeps_column
    (hI : s.Maintains (Moment.Calls fun call => ∀ x, call.written? id c = some x → P x) I)
    (hmaker : c.maker? ≠ some t) (hP : t.Overwrites → P v)
    (hrules : t = .rules → ∀ past st, I past st →
      (s.others past st).RulesSpare s.registry owner c) (scratch : String) :
    Keeps s (Desk.Has (fun d => d.userId = owner ∧ d.get c = v) I) (ofStep scratch t) := by
  have hasks : ∀ m : Moment, m.OnBehalf (fun _ => False) →
      m.Calls fun call => ∀ x, call.written? id c = some x → P x := by
    rintro (call | e) hm
    · cases call with
      | setContent i text => exact hm.elim fun _ h => h.1.elim
      | setStatus | updateDocument | updateWithEntries => exact hm.elim
      | _ => simp [Moment.Calls, StoreCall.written?]
    · trivial
  have hstored : ∀ d : Document, t.Overwrites → d.get c = v → ∀ x,
      (if d.id = id then some (d.get c) else none) = some x → P x := by
    intro d ht hd x hx
    split at hx
    · cases hx
      rw [hd]
      exact hP ht
    · cases hx
  have hmetadata : ∀ (d : Document) metadata, d.userId = owner ∧ d.get c = v →
      ({ d with metadata := metadata } : Document).userId = owner ∧
        ({ d with metadata := metadata } : Document).get c = v := by
    intro d metadata hd
    exact hd
  cases t with
  | hash =>
      refine hash_keeps (fun d hash files path hd => ⟨hd.1, ?_⟩) hI (fun _ => trivial)
        fun d hd => hstored d (.inl rfl) hd.2
      rw [← hd.2]
      cases c <;> first | rfl | exact absurd rfl hmaker
  | thumbnail => exact thumbnail_keeps scratch
  | parseContent =>
      have hcontent : ∀ text, c.content? text = none := by
        intro text
        cases c <;> first | rfl | exact absurd rfl hmaker
      refine parseContent_keeps (fun d content hd => ⟨hd.1, ?_⟩) hI
        (fun d text _ => by simp [Moment.Calls, StoreCall.written?, hcontent]) scratch
      rw [← hd.2]
      cases c <;> first | rfl | exact absurd rfl hmaker
  | detectLanguage =>
      refine detectLanguage_keeps (fun d lang hd => ⟨hd.1, ?_⟩) hI
        fun d hd => hstored d (.inr (.inl rfl)) hd.2
      rw [← hd.2]
      cases c <;> first | rfl | exact absurd rfl hmaker
  | rules =>
      refine rules_keeps hmetadata (fun d past st rules hd hpast hasked => ?_) hI hasks
        fun d hd => hstored d (.inr (.inr rfl)) hd.2
      rw [hd.1] at hasked
      refine applyRules_induction fun rule hrule a ha henabled d₁ d₂ hd₁ happly => ?_
      obtain ⟨howner, hget⟩ := hrules rfl past st hpast rules hasked rule hrule a ha henabled _ _ happly
      exact ⟨howner.trans hd₁.1, hget.trans hd₁.2⟩
  | ftsIndex => exact ftsIndex_keeps hmetadata (fun _ _ hd => hd) hI hasks

end Handler

/-! ### The first call of what is still to come -/

namespace Act

variable {σ α β : Type} {s : Surroundings} {moments : σ → List Moment}

/-- Work that calls the store before all else, unless it ends before that. -/
def CallsFirst (s : Surroundings) (moments : σ → List Moment) (x : Act σ α) : Prop :=
  ∀ w, (∃ i, x s w = (.error i, w)) ∨
    ∃ call, (.call call :: moments w) <:+ moments (x s w).2

/-- Work that only adds to the past. -/
def Extends (s : Surroundings) (moments : σ → List Moment) (x : Act σ α) : Prop :=
  ∀ w, moments w <:+ moments (x s w).2

theorem CallsFirst.bind {x : Act σ α} {f : α → Act σ β} (hx : CallsFirst s moments x)
    (hf : ∀ a, Extends s moments (f a)) : CallsFirst s moments (x >>= f) := by
  intro w
  rcases hx w with ⟨i, hi⟩ | ⟨call, hcall⟩
  · exact .inl ⟨i, bind_of_error hi⟩
  · refine .inr ⟨call, ?_⟩
    rcases heq : x s w with ⟨i | a, w'⟩
    · rw [bind_of_error heq]
      rwa [heq] at hcall
    · rw [bind_of_ok heq]
      rw [heq] at hcall
      exact hcall.trans (hf a w')

theorem callsFirst_tell (c : StoreCall) : CallsFirst s World.moments (tell c) := by
  intro w
  cases hstop : s.stops w.moments with
  | true => exact .inl ⟨_, tell_of_stop c hstop⟩
  | false =>
      rw [tell_of_go c hstop]
      exact .inr ⟨c, List.suffix_rfl⟩

theorem callsFirst_ask {c : StoreCall} (hasks : ∀ now st, c.perform now st = .ok st)
    (run : Store → Except StoreError α) : CallsFirst s World.moments (ask c run) := by
  intro w
  cases hstop : s.stops w.moments with
  | true => exact .inl ⟨_, ask_of_stop c run hstop⟩
  | false =>
      rw [ask_of_go c run hasks hstop]
      exact .inr ⟨c, List.suffix_rfl⟩

theorem CallsFirst.onWorld {x : Act World α} (hx : CallsFirst s World.moments x) :
    CallsFirst s (·.world.moments) (Act.onWorld x) := by
  intro desk
  rcases hx desk.world with ⟨i, hi⟩ | ⟨call, hcall⟩
  · refine .inl ⟨i, ?_⟩
    simp only [Act.onWorld, Act.within, hi]
  · exact .inr ⟨call, hcall⟩

end Act

namespace Pass

open Act (Keeps CallsFirst Extends)

variable {s : Surroundings} {id : String}

theorem runSteps_extends (scratch : String) (steps : List Step) :
    Extends s (·.world.moments) (runSteps (Handler.ofStep scratch) id steps) := by
  intro desk
  have hkeeps : Keeps s (Desk.Has (fun _ => True) fun past _ => desk.world.moments <:+ past)
      (runSteps (Handler.ofStep scratch) id steps) :=
    runSteps_keeps (fun t => Handler.ofStep_minds (Document.lasting_true _) scratch t) steps
      (fun _ _ => s.maintains_suffix _ desk.world.moments)
  exact (hkeeps desk ⟨trivial, List.suffix_rfl⟩).1.2

theorem runSteps_callsFirst (scratch : String) (t : Step) (rest : List Step) :
    CallsFirst s (·.world.moments) (runSteps (Handler.ofStep scratch) id (t :: rest)) := by
  have hsuffix := fun base => s.maintains_suffix (Moment.OfStep (fun _ => True) id t) base
  have hbegin : CallsFirst s (·.world.moments) (begin id t) :=
    (Act.callsFirst_tell _).onWorld.bind fun _ _ => List.suffix_rfl
  refine CallsFirst.bind (hbegin.bind fun _ desk => ?_) fun r desk => ?_
  · have hhandler := Handler.ofStep_minds (s := s) (Document.lasting_true _) scratch t
    have hkeeps := Keeps.bind (.attempt (hhandler _ ((hsuffix desk.world.moments).mono
      fun _ hm => .inl hm))) fun result _ => conclude_keeps (hsuffix _) (note result)
    exact (hkeeps desk ⟨trivial, List.suffix_rfl⟩).1.2
  · cases r with
    | some reason => exact List.suffix_rfl
    | none => exact runSteps_extends scratch rest desk

theorem settle_callsFirst : CallsFirst s World.moments (settle id) := by
  refine (Act.callsFirst_ask (fun _ _ => rfl) _).bind fun steps w => ?_
  have hkeeps : Keeps s (World.Has fun past _ => w.moments <:+ past)
      (if steps.isEmpty then Act.tell (.setStatus id .ready) else pure ()) := by
    split
    · exact .tell (s.maintains_suffix (fun _ => True) _) trivial
    · exact .pure trivial
  exact (hkeeps w List.suffix_rfl).1

/-- What is still to come of a pass between two steps begins with a call. -/
theorem runWith_callsFirst (scratch : String) (d : Document) (steps : List Step) :
    CallsFirst s World.moments (runWith (Handler.ofStep scratch) d id steps) := by
  cases steps with
  | nil => exact settle_callsFirst.bind fun _ _ => List.suffix_rfl
  | cons t rest =>
      have hsteps : CallsFirst s World.moments
          (withCopy d (runSteps (Handler.ofStep scratch) id (t :: rest))) := by
        have hfirst : CallsFirst s (·.world.moments)
            (runSteps (Handler.ofStep scratch) id (t :: rest)) := runSteps_callsFirst scratch t rest
        intro w
        rcases hfirst ⟨w, d⟩ with ⟨i, hi⟩ | ⟨call, hcall⟩
        · refine .inl ⟨i, ?_⟩
          simp only [withCopy, hi]
        · exact .inr ⟨call, hcall⟩
      refine hsteps.bind fun r w => ?_
      rcases r with _ | ⟨step, reason⟩
      · have hsettle : Keeps s (World.Has fun past _ => w.moments <:+ past) (settle id) :=
          settle_keeps (s.maintains_suffix (fun _ => True) w.moments) trivial trivial
        have hkeeps := hsettle.bind fun _ _ =>
          Keeps.bind (.report (.documentFinished id true)) fun _ _ =>
            Keeps.pure (a := DocumentOutcome.completed) (Q := fun _ => True) trivial
        exact (hkeeps w List.suffix_rfl).1
      · exact List.suffix_rfl

/-! ### An edit between two steps -/

/-- A pass has read a document, has run some of its waiting steps, and has others still to run on
what lies on a desk. -/
def Between (id : String) (s : Surroundings) (w : World) (d : Document) (done rest : List Step)
    (desk : Desk) : Prop :=
  ∃ w₁ w₂ w₃, Act.ask (.getDocument id) (·.getDocument id) s w = (.ok d, w₁) ∧
    pending id s w₁ = (.ok (done ++ rest), w₂) ∧ openScratch s w₂ = (.ok (), w₃) ∧
    runSteps (Handler.ofStep s.scratch) id done s ⟨w₃, d⟩ = (.ok none, desk)

variable {w : World} {d : Document} {done rest : List Step} {desk : Desk} {c : Column}

theorem Between.process_eq (h : Between id s w d done rest desk) :
    process id s w = (runWith (Handler.ofStep s.scratch) desk.copy id rest).followedBy
      closeScratch s desk.world := by
  obtain ⟨w₁, w₂, w₃, hget, hpending, hopen, hdone⟩ := h
  have hrest : runWith (Handler.ofStep s.scratch) d id (done ++ rest) s w₃ =
      runWith (Handler.ofStep s.scratch) desk.copy id rest s desk.world := by
    have hsteps : withCopy d (runSteps (Handler.ofStep s.scratch) id (done ++ rest)) s w₃ =
        withCopy desk.copy (runSteps (Handler.ofStep s.scratch) id rest) s desk.world := by
      rw [withCopy, runSteps_append rest hdone]
      rfl
    simp only [runWith, Bind.bind, hsteps]
  refine (run_of_opened hget hpending hopen).trans ?_
  simp only [Act.followedBy, hrest]

/-- Calls keep it that no rule changes a column, if others do. -/
theorem maintains_rulesSpare {P : Prop} {owner : Int}
    (hothers : P → ∀ past st, st.RulesSpare s.registry owner c →
      (s.others past st).RulesSpare s.registry owner c) (kind : StoreCall → Prop) :
    s.Maintains (Moment.Calls kind) fun _ st => P → st.RulesSpare s.registry owner c := by
  apply Surroundings.maintains_of_perform
  · exact fun past st hst hP => hothers hP past st (hst hP)
  · intro call now st st' _ hperform hst hP rules hrules
    rw [StoreCall.activeRules_perform hperform] at hrules
    exact hst hP rules hrules

/-- Steps that do not compute a column keep it in the copy, and write nothing else to it. -/
theorem runSteps_keeps_column {P : c.Value → Prop} {owner : Int} {v : c.Value} {st : Store}
    {I : List Moment → Store → Prop} {steps : List Step} (hfree : c.Free s owner steps st)
    (hI : s.Maintains (Moment.Calls fun call => ∀ x, call.written? id c = some x → P x) I)
    (hspare : ∀ past st, I past st → Step.rules ∈ steps → st.RulesSpare s.registry owner c)
    (hP : ∀ t ∈ steps, t.Overwrites → P v) (scratch : String) :
    Keeps s (Desk.Has (fun d => d.userId = owner ∧ d.get c = v) I)
      (runSteps (Handler.ofStep scratch) id steps) := by
  refine runSteps_keeps_of steps fun t ht => ?_
  have hhandler := Handler.ofStep_keeps_column hI (hfree.made t ht) (hP t ht)
    (fun heq past st hpast => hfree.others (heq ▸ ht) past st (hspare past st hpast (heq ▸ ht)))
    scratch
  have hjobs : s.Maintains (Moment.OfStep (fun _ => False) id t) I := hI.mono fun m hm => ?_
  · exact runStep_keeps_of hhandler hjobs
  rcases hm with hm | ⟨call, rfl, hjob⟩
  · cases m with
    | effect e => trivial
    | call call =>
        cases call with
        | setContent i text => exact hm.elim fun _ h => h.1.elim
        | setStatus | updateDocument | updateWithEntries => exact hm.elim
        | _ => simp [Moment.Calls, StoreCall.written?]
  · cases call with
    | startJob | finishJob | requeueJob | clearJob => simp [Moment.Calls, StoreCall.written?]
    | _ => cases hjob

/-- Where the steps so far do not compute a column, the copy has in it what the pass has read when
it began. -/
theorem Between.copy_get (h : Between id s w d done rest desk)
    (hfree : c.Free s d.userId done w.store) : desk.copy.get c = d.get c := by
  obtain ⟨w₁, w₂, w₃, hget, hpending, hopen, hdone⟩ := h
  have hI := maintains_rulesSpare (s := s) hfree.others fun _ => True
  have hw₁ := (Keeps.ask hI (c := .getDocument id) trivial (fun _ _ => rfl) (·.getDocument id)
    w hfree.ruled).1
  rw [hget] at hw₁
  have hasked : Keeps s _ (pending id) := pending_keeps hI trivial
  have hw₂ := (hasked w₁ hw₁).1
  rw [hpending] at hw₂
  have hw₃ := (openScratch_keeps (s := s) w₂ hw₂).1
  rw [hopen] at hw₃
  have hsteps : Keeps s (Desk.Has (fun d' => d'.userId = d.userId ∧ d'.get c = d.get c) _)
      (runSteps (Handler.ofStep s.scratch) id done) :=
    runSteps_keeps_column (P := fun _ => True) hfree (maintains_rulesSpare hfree.others _)
      (fun _ _ h => h) (fun _ _ _ => trivial) s.scratch
  have hcopy := (hsteps ⟨w₃, d⟩ ⟨⟨rfl, rfl⟩, hw₃⟩).1.1
  rw [hdone] at hcopy
  exact hcopy.2

theorem runWith_keeps_column {P : c.Value → Prop} {owner : Int} {steps : List Step}
    (hd : d.userId = owner) (hfree : c.Free s owner steps w.store)
    (hP : ∀ t ∈ steps, t.Overwrites → P (d.get c)) (scratch : String) :
    World.Has (s.WritesOnly id c P w.moments w.store)
      (runWith (Handler.ofStep scratch) d id steps s w).2 := by
  have hwrites : s.Maintains _ (s.WritesOnly id c P w.moments w.store) :=
    s.maintains_writesOnly P
  have hI := hwrites.and (maintains_rulesSpare (s := s) hfree.others _)
  have hsteps := runSteps_keeps_column hfree hI (fun _ _ h => h.2) hP scratch
  have hready : c.status? DocumentStatus.ready.name = none := by
    cases c <;> first | rfl | exact absurd rfl hfree.status
  have hpass := runWith_keeps_of ⟨hd, rfl⟩ steps hI hsteps
    (by simp [Moment.Calls, StoreCall.written?])
    (by simp [Moment.Calls, StoreCall.written?, hready])
  exact (hpass w ⟨⟨[], rfl, rfl, by simp [Surroundings.lastWritten?]⟩, hfree.ruled⟩).1.1

theorem runWith_writes (scratch : String) (d : Document) (steps : List Step) (w : World) :
    World.Has (s.WritesOnly id c (fun _ => True) w.moments w.store)
      (runWith (Handler.ofStep scratch) d id steps s w).2 := by
  have hI : s.Maintains (fun _ => True)
      (s.WritesOnly id c (fun _ => True) w.moments w.store) :=
    (s.maintains_writesOnly _).mono fun m _ => by
      cases m <;> simp [Moment.Calls]
  have hsteps : Keeps s (Desk.Has (fun _ => True) _)
      (runSteps (Handler.ofStep scratch) id steps) :=
    runSteps_keeps (fun t => Handler.ofStep_minds (Document.lasting_true _) scratch t) steps
      (fun _ _ => hI.mono fun _ _ => trivial)
  exact (runWith_keeps_of (d := d) trivial steps hI hsteps trivial trivial w
    ⟨[], rfl, rfl, fun _ _ => trivial⟩).1

/-- An edit of another client between two steps of a pass, seen in a column that nobody else writes
from then on.  In the end the column holds what the pass has written to it last, and the value of
the edit if the pass writes it no more.  Where nothing still to come computes the column, the pass
writes only the value that its copy has had all along, and only as a step stores the whole copy; so
the edit survives exactly if no step does so any more, or the copy happens to have its value. -/
theorem process_keeps_edit_iff {edited : DocumentRow} (hbetween : Between id s w d done rest desk)
    (hedit : (s.others desk.world.moments desk.world.store).documentRow? id = some edited)
    (hlater : s.LeavesSince id c desk.world.moments) :
    ∃ since, (process id s w).2.moments = since ++ desk.world.moments ∧ (since ≠ [] →
      (process id s w).2.store.column? id c =
        some ((s.lastWritten? id c desk.world.moments desk.world.store since).getD
          (edited.get c)) ∧
      (c.Free s desk.copy.userId rest desk.world.store →
        (∀ v, s.lastWritten? id c desk.world.moments desk.world.store since = some v →
          v = desk.copy.get c ∧ ∃ t ∈ rest, t.Overwrites) ∧
        ((process id s w).2.store.column? id c = some (edited.get c) ↔
          s.lastWritten? id c desk.world.moments desk.world.store since = none ∨
            edited.get c = desk.copy.get c)) ∧
      (c.Free s d.userId done w.store → desk.copy.get c = d.get c)) := by
  let ended := runWith (Handler.ofStep s.scratch) desk.copy id rest s desk.world
  have hwrites : World.Has (s.WritesOnly id c (fun _ => True) desk.world.moments desk.world.store)
      ended.2 := runWith_writes s.scratch desk.copy rest desk.world
  obtain ⟨since, hpast, hstore, -⟩ := hwrites
  have hended : World.Has (fun past st => past = since ++ desk.world.moments ∧
      st = s.replay desk.world.moments desk.world.store since) (process id s w).2 := by
    rw [hbetween.process_eq, has_followedBy_closeScratch]
    exact ⟨hpast, hstore⟩
  refine ⟨since, hended.1, fun hne => ?_⟩
  obtain ⟨later, call, rfl⟩ : ∃ later call, since = later ++ [.call call] := by
    have hfirst : CallsFirst s World.moments
        (runWith (Handler.ofStep s.scratch) desk.copy id rest) :=
      runWith_callsFirst s.scratch desk.copy rest
    rcases hfirst desk.world with ⟨i, hi⟩ | ⟨call, later, hcall⟩
    · change ended = _ at hi
      rw [hi] at hpast
      exact absurd (List.self_eq_append_left.mp hpast) hne
    · change later ++ _ = ended.2.moments at hcall
      rw [hpast, List.append_cons] at hcall
      exact ⟨later, call, (List.append_cancel_right hcall).symm⟩
  have hcolumn : (process id s w).2.store.column? id c =
      some ((s.lastWritten? id c desk.world.moments desk.world.store
        (later ++ [.call call])).getD (edited.get c)) := by
    rw [hended.2, hlater.column?_replay, Store.column?, hedit]
    rfl
  refine ⟨hcolumn, fun hfree => ?_, hbetween.copy_get⟩
  have hwritten : ∀ v, s.lastWritten? id c desk.world.moments desk.world.store
      (later ++ [.call call]) = some v → v = desk.copy.get c ∧ ∃ t ∈ rest, t.Overwrites := by
    have hkept : World.Has (s.WritesOnly id c (fun v => v = desk.copy.get c ∧
        ∃ t ∈ rest, t.Overwrites) desk.world.moments desk.world.store) ended.2 :=
      runWith_keeps_column rfl hfree (fun t ht hover => ⟨rfl, t, ht, hover⟩) s.scratch
    obtain ⟨since', hpast', -, hwritten⟩ := hkept
    rw [hpast] at hpast'
    rwa [List.append_cancel_right hpast']
  refine ⟨hwritten, ?_⟩
  rw [hcolumn, Option.some.injEq]
  cases hlast : s.lastWritten? id c desk.world.moments desk.world.store
    (later ++ [.call call]) with
  | none => simp
  | some v =>
      rw [(hwritten v hlast).1]
      simp [eq_comm]

/-! A document that another client renames in the middle of a pass. -/

/-- A document with a content, and with a name that is to change. -/
def untitled : Document :=
  { (default : Document) with id := "d", name := "old", content := "hello", status := .processing }

/-- Bare surroundings in which all texts have one language, and another client renames the
document after the first step of a pass. -/
def retitling : Surroundings :=
  { Surroundings.bare with
    language := {}
    identify := fun _ => some "eng"
    others := fun past st =>
      if past.length = 5 then (st.updateDocument { untitled with name := "new" } default).2 else st }

/-- The document waits for two of its steps. -/
def twoWaiting : World where
  store :=
    { documents := [.ofDocument untitled]
      jobs := [.pending "d" .thumbnail default, .pending "d" .detectLanguage default] }
  files := .empty

/-- What happens up to the end of the first step. -/
def pictureCalls : List Moment :=
  [.call (.clearJob "d" .thumbnail), .call (.finishJob "d" .thumbnail none),
    .call (.startJob "d" .thumbnail), .call (.pendingSteps "d"), .call (.getDocument "d")]

/-- What happens during the second step. -/
def languageCalls : List Moment :=
  [.call (.clearJob "d" .detectLanguage), .call (.finishJob "d" .detectLanguage none),
    .call (.updateDocument { untitled with lang := "eng" }),
    .call (.startJob "d" .detectLanguage)]

/-- The store after the second step. -/
def spokenStore : Store := { documents := [.ofDocument { untitled with lang := "eng" }] }

theorem pendingJobs_twoWaiting : ∃ jobs, twoWaiting.store.pendingJobs "d" = .ok jobs ∧
    jobs.map (·.step) = [.thumbnail, .detectLanguage] := by
  have hkeyed : twoWaiting.store.Keyed := by decide +kernel
  obtain ⟨jobs, hjobs⟩ : ∃ jobs, twoWaiting.store.pendingJobs "d" = .ok jobs := by
    refine Store.readJobs_ok fun r hr => ?_
    rcases List.mem_cons.mp (List.mem_of_mem_filter hr) with rfl | hr
    · exact ⟨_, rfl⟩
    · rw [List.mem_singleton.mp hr]
      exact ⟨_, rfl⟩
  refine ⟨jobs, hjobs, ?_⟩
  apply Store.pendingSteps_eq hkeyed hjobs (by decide)
  intro t
  cases t <;> decide +kernel

theorem between_twoWaiting : ∃ desk ended,
    Between "d" retitling twoWaiting untitled [.thumbnail] [.detectLanguage] desk ∧
    desk.copy = untitled ∧ desk.world.moments = pictureCalls ∧
    (retitling.others desk.world.moments desk.world.store).documentRow? "d" =
      some (.ofDocument { untitled with name := "new" }) ∧
    runSteps (Handler.ofStep "/scratch") "d" [.detectLanguage] retitling desk = (.ok none, ended) ∧
    ended.world.moments = languageCalls ++ pictureCalls ∧ ended.world.store = spokenStore := by
  obtain ⟨jobs, hjobs, hsteps⟩ := pendingJobs_twoWaiting
  let w₁ := twoWaiting.next retitling (.call (.getDocument "d"))
  let w₂ := w₁.next retitling (.call (.pendingSteps "d"))
  have hpending : pending "d" retitling w₁ = (.ok [.thumbnail, .detectLanguage], w₂) := by
    refine (Act.ask_of_go _ _ (fun _ _ => rfl) rfl).trans ?_
    change (((twoWaiting.store.pendingJobs "d").map _).mapError _, _) = _
    rw [hjobs, ← hsteps]
    rfl
  obtain ⟨w₃, hopen, hrun⟩ : ∃ w₃, openScratch retitling w₂ = (.ok (), w₃) ∧
      let first := runSteps (Handler.ofStep "/scratch") "d" [.thumbnail] retitling ⟨w₃, untitled⟩
      let second := runSteps (Handler.ofStep "/scratch") "d" [.detectLanguage] retitling first.2
      first.1.toOption = some none ∧ first.2.copy = untitled ∧
        first.2.world.moments = pictureCalls ∧
        (retitling.others first.2.world.moments first.2.world.store).documentRow? "d" =
          some (.ofDocument { untitled with name := "new" }) ∧
        second.1.toOption = some none ∧
        second.2.world.moments = languageCalls ++ pictureCalls ∧
        second.2.world.store = spokenStore :=
    ⟨_, rfl, by decide +kernel⟩
  rcases hfirst : runSteps (Handler.ofStep "/scratch") "d" [.thumbnail] retitling ⟨w₃, untitled⟩
    with ⟨i | r, desk⟩
  · rw [hfirst] at hrun
    cases hrun.1
  rw [hfirst] at hrun
  rcases hsecond : runSteps (Handler.ofStep "/scratch") "d" [.detectLanguage] retitling desk
    with ⟨i | r', ended⟩
  · dsimp only at hrun
    rw [hsecond] at hrun
    cases hrun.2.2.2.2.1
  dsimp only at hrun
  rw [hsecond] at hrun
  obtain ⟨hgone, hcopy, hmoments, hrow, hended, hcalls, hstore⟩ := hrun
  cases hgone
  cases hended
  have hscratch : retitling.scratch = "/scratch" := rfl
  refine ⟨desk, ended, ⟨w₁, w₂, w₃, rfl, hpending, hopen, ?_⟩, hcopy, hmoments, hrow, hsecond,
    hcalls, hstore⟩
  rw [hscratch]
  exact hfirst

theorem settle_spoken {w : World} (hmoments : w.moments = languageCalls ++ pictureCalls)
    (hstore : w.store = spokenStore) :
    ∃ w', settle "d" retitling w = (.ok (), w') ∧
      w'.moments = .call (.setStatus "d" .ready) :: .call (.pendingSteps "d") :: w.moments ∧
      w'.store.column? "d" .name = some "old" := by
  have hothers : retitling.others w.moments w.store = spokenStore := by
    rw [hmoments, hstore]
    rfl
  have hnone : (retitling.others w.moments w.store).pendingJobs "d" = .ok [] := by
    rw [hothers, Store.pendingJobs]
    exact Store.readJobs_nil
  let asked := w.next retitling (.call (.pendingSteps "d"))
  have hasked : pending "d" retitling w = (.ok [], asked) := by
    refine (Act.ask_of_go _ _ (fun _ _ => rfl) rfl).trans ?_
    rw [hnone]
    rfl
  refine ⟨asked.next retitling (.call (.setStatus "d" .ready)),
    (Act.bind_of_ok hasked).trans ((Act.tell_of_go _ rfl).trans ?_), rfl, ?_⟩
  · have hverdict : retitling.verdict asked.moments asked.store (.setStatus "d" .ready) =
        .ok () := by
      simp only [asked, World.next_moments, World.next_store, hmoments, hstore]
      rfl
    rw [hverdict]
  · simp only [asked, World.next_moments, World.next_store, hmoments, hstore]
    rfl

/-- The pass runs to its end, and the old name is back. -/
theorem process_twoWaiting {desk ended : Desk}
    (hbetween : Between "d" retitling twoWaiting untitled [.thumbnail] [.detectLanguage] desk)
    (hrun : runSteps (Handler.ofStep "/scratch") "d" [.detectLanguage] retitling desk =
      (.ok none, ended))
    (hcalls : ended.world.moments = languageCalls ++ pictureCalls)
    (hstore : ended.world.store = spokenStore) :
    (process "d" retitling twoWaiting).1 = .ok .completed ∧
      (process "d" retitling twoWaiting).2.moments =
        [.call (.setStatus "d" .ready), .call (.pendingSteps "d")] ++ languageCalls ++ pictureCalls ∧
      (process "d" retitling twoWaiting).2.store.column? "d" .name = some "old" := by
  obtain ⟨w, hsettle, hmoments, hname⟩ := settle_spoken hcalls hstore
  have hclosed := (runWith_of_none hrun).trans (Act.bind_of_ok hsettle)
  let done : World := { w with events := .documentFinished "d" true :: w.events }
  have hprocess : process "d" retitling twoWaiting =
      (.ok .completed, (closeScratch retitling done).2) := by
    refine hbetween.process_eq.trans ?_
    have hscratch : retitling.scratch = "/scratch" := rfl
    simp only [Act.followedBy]
    rw [hscratch, hclosed]
    rfl
  rw [hprocess]
  exact ⟨rfl, hmoments.trans (by rw [hcalls]; rfl), hname⟩

theorem leavesSince_retitling {base : List Moment} (hbase : base = pictureCalls) :
    retitling.LeavesSince "d" .name base := by
  subst hbase
  intro past st hpast
  have hne : past.length ≠ 5 := Nat.ne_of_gt hpast
  simp only [retitling, hne, if_false]

theorem free_retitling (st : Store) : Column.name.Free retitling untitled.userId [.detectLanguage] st
    where
  status := by decide
  made := by decide
  ruled h := by simp at h
  others h := by simp at h

/-- The new name was overwritten with the name of the copy. -/
theorem process_keeps_edit_iff_retitled : ∃ (desk : Desk) (since : List Moment),
    (process "d" retitling twoWaiting).2.moments = since ++ desk.world.moments ∧
    (retitling.others desk.world.moments desk.world.store).column? "d" .name = some "new" ∧
    retitling.lastWritten? "d" .name desk.world.moments desk.world.store since = some "old" ∧
    (process "d" retitling twoWaiting).2.store.column? "d" .name ≠ some "new" := by
  obtain ⟨desk, ended, hbetween, hcopy, hmoments, hrow, hrun, hcalls, hstore⟩ := between_twoWaiting
  obtain ⟨-, hpast, hname⟩ := process_twoWaiting hbetween hrun hcalls hstore
  obtain ⟨since, hsince, hfate⟩ :=
    process_keeps_edit_iff hbetween hrow (leavesSince_retitling hmoments)
  have hne : since ≠ [] := by
    rintro rfl
    rw [hpast, hmoments] at hsince
    exact absurd (congrArg List.length hsince) (by decide)
  obtain ⟨hcolumn, hkept, -⟩ := hfate hne
  have hwritten := (hkept (hcopy ▸ free_retitling _)).2
  have hlost : (process "d" retitling twoWaiting).2.store.column? "d" .name ≠ some "new" := by
    rw [hname]
    exact fun h => absurd (Option.some.inj h) (by decide)
  refine ⟨desk, since, hsince, by rw [Store.column?, hrow]; rfl, ?_, hlost⟩
  cases hlast : retitling.lastWritten? "d" .name desk.world.moments desk.world.store since with
  | none => exact absurd (hwritten.mpr (.inl hlast)) hlost
  | some v =>
      rw [hname, hlast] at hcolumn
      exact hcolumn.symm

/-- A pass that has done its first step sees another client rename the document, and when it has
ended the document has its old name again. -/
theorem retitled_reverts : ∃ desk,
    Between "d" retitling twoWaiting untitled [.thumbnail] [.detectLanguage] desk ∧
    ((retitling.others desk.world.moments desk.world.store).documentRow? "d").map (·.name) =
      some "new" ∧
    retitling.LeavesSince "d" .name desk.world.moments ∧
    (process "d" retitling twoWaiting).1 = .ok .completed ∧
    ((process "d" retitling twoWaiting).2.store.documentRow? "d").map (·.name) = some "old" := by
  obtain ⟨desk, ended, hbetween, -, hmoments, hrow, hrun, hcalls, hstore⟩ := between_twoWaiting
  obtain ⟨hresult, -, hname⟩ := process_twoWaiting hbetween hrun hcalls hstore
  exact ⟨desk, hbetween, by rw [hrow]; rfl, leavesSince_retitling hmoments, hresult, hname⟩

end Pass

end Docket
