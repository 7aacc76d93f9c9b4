import Docket.Proofs.History

/-!
What steps leave alone.  A step reads and writes the store only on behalf of the
copy that it works on, so that it touches no job, and its copy keeps every
property that no single change of the copy takes away.
-/

namespace Docket

/-- What a step brings about while its copy has a property. -/
def Moment.OnBehalf (Good : Document → Prop) : Moment → Prop
  | .effect _ => True
  | .call (.updateDocument d) | .call (.updateWithEntries d) => Good d
  | .call (.setContent id _) => ∃ d, Good d ∧ d.id = id
  | .call (.activeRules _) | .call (.documentEntries _)
  | .call (.autoMatchValues _) | .call (.documentTags _) => True
  | .call _ => False

theorem Moment.OnBehalf.mono {Good Good' : Document → Prop} {m : Moment} (h : m.OnBehalf Good)
    (himp : ∀ d, Good d → Good' d) : m.OnBehalf Good' := by
  cases m with
  | effect e => trivial
  | call c =>
      cases c with
      | updateDocument d | updateWithEntries d => exact himp d h
      | setContent id text =>
          obtain ⟨d, hd, hid⟩ := h
          exact ⟨d, himp d hd, hid⟩
      | _ => exact h

/-- What attaching entries keeps, adding an entry keeps. -/
theorem Document.addEntry_induction {P : Document → Prop}
    (hmetadata : ∀ d metadata, P d → P { d with metadata := metadata }) {d : Document} (e : Entry)
    (hd : P d) : P (d.addEntry e) := by
  unfold Document.addEntry
  split
  · exact hd
  · exact hmetadata d _ hd

/-- What attaching each of some values keeps, auto-matching keeps. -/
theorem Document.autoMatch_induction {P : Document → Prop} {values : List AutoMatchValue}
    (hadd : ∀ v ∈ values, ∀ d, P d → P (d.addEntry v.entry)) {d : Document} (hd : P d) :
    P (d.autoMatch values).1 := by
  suffices ∀ lowered d added cache, P d →
      P (Document.autoMatch.go lowered d added cache values).1 from this _ d 0 [] hd
  intro lowered
  induction values with
  | nil => exact fun d added cache hd => hd
  | cons v rest ih =>
      have hrest := ih fun u hu => hadd u (List.mem_cons_of_mem v hu)
      intro d added cache hd
      unfold Document.autoMatch.go
      split
      split
      · exact hrest _ _ _ (hadd v List.mem_cons_self d hd)
      · exact hrest _ _ _ hd

/-- What the enabled actions of a rule keep, carrying out its actions keeps. -/
theorem Registry.applyAll_induction {P : Document → Prop} {r : Registry} {actions : List Action}
    (matched : Bool) (happly : ∀ a ∈ actions, a.enabled = true → ∀ d d', P d →
      r.apply a d = .ok d' → P d') :
    ∀ d, P d → P (r.applyAll matched d actions).1 := by
  induction actions with
  | nil => exact fun d hd => hd
  | cons a rest ih =>
      have hone : ∀ d, P d → P (r.applyOne matched a d).1 := by
        intro d hd
        unfold Registry.applyOne
        split
        · exact hd
        · next henabled =>
            split
            · exact hd
            · split
              · next d' hok =>
                  exact happly a List.mem_cons_self (by simpa using henabled) d d' hd hok
              · exact hd
      exact fun d hd => ih (fun b hb => happly b (List.mem_cons_of_mem a hb)) _ (hone d hd)

/-- What the enabled actions of rules keep, applying the rules keeps. -/
theorem Handler.applyRules_induction {P : Document → Prop} {r : Registry} {rules : List Rule}
    (happly : ∀ rule ∈ rules, ∀ a ∈ rule.actions, a.enabled = true → ∀ d d', P d →
      r.apply a d = .ok d' → P d') :
    ∀ d, P d → P (Handler.applyRules r d rules) := by
  unfold Handler.applyRules
  induction rules with
  | nil => exact fun d hd => hd
  | cons rule rest ih =>
      intro d hd
      exact ih (fun u hu => happly u (List.mem_cons_of_mem rule hu)) _
        (Registry.applyAll_induction _ (happly rule List.mem_cons_self) d hd)

/-- No change that a step makes to its copy takes a property away. -/
structure Document.Lasting (r : Registry) (Good : Document → Prop) : Prop where
  rehashed : ∀ d hash files path, Good d → Good (Handler.rehashed d hash files path)
  content : ∀ d content, Good d → Good { d with content := content }
  lang : ∀ d lang, Good d → Good { d with lang := lang }
  metadata : ∀ d metadata, Good d → Good { d with metadata := metadata }
  tags : ∀ d tags, Good d → Good { d with tags := tags }
  action : ∀ d a d', Good d → r.apply a d = .ok d' → Good d'

theorem Document.lasting_true (r : Registry) : Document.Lasting r fun _ => True :=
  ⟨fun _ _ _ _ _ => trivial, fun _ _ _ => trivial, fun _ _ _ => trivial,
    fun _ _ _ => trivial, fun _ _ _ => trivial, fun _ _ _ _ _ => trivial⟩

namespace Document.Lasting

variable {r : Registry} {Good : Document → Prop}

theorem applyRules (hgood : Document.Lasting r Good) (rules : List Rule) :
    ∀ d, Good d → Good (Handler.applyRules r d rules) :=
  Handler.applyRules_induction fun _ _ a _ _ d d' hd happly => hgood.action d a d' hd happly

end Document.Lasting

/-- An assertion about past and store, of a desk whose copy has a property. -/
def Desk.Has (Good : Document → Prop) (I : List Moment → Store → Prop)
    (desk : Desk) : Prop :=
  Good desk.copy ∧ World.Has I desk.world

namespace Act.Keeps

variable {α : Type} {s : Surroundings} {Good : Document → Prop}
  {I : List Moment → Store → Prop}

theorem onWorld {x : Act World α} {Q : α → Prop} (hx : Keeps s (World.Has I) x Q) :
    Keeps s (Desk.Has Good I) (Act.onWorld x) Q :=
  within (fun _ h => h.2) (fun _ _ h hw => ⟨h.1, hw⟩) hx

theorem copy : Keeps s (Desk.Has Good I) Act.copy Good :=
  bind state fun _ h => pure h.1

theorem setCopy {d : Document} (hd : Good d) :
    Keeps s (Desk.Has Good I) (Act.setCopy d) :=
  change fun _ h => ⟨hd, h.2⟩

end Act.Keeps

namespace Handler

open Act (Keeps)

variable {s : Surroundings} {Good : Document → Prop} {kind : Moment → Prop}
  {I : List Moment → Store → Prop}

theorem store_keeps (hI : s.Maintains kind I) {d : Document}
    (hd : kind (.call (.updateDocument d))) : Keeps s (Desk.Has Good I) (store d) :=
  .onWorld (.tell hI hd)

theorem hash_keeps (hrehashed : ∀ d hash files path, Good d → Good (rehashed d hash files path))
    (hI : s.Maintains kind I) (heffect : ∀ e, kind (.effect e))
    (hstore : ∀ d, Good d → kind (.call (.updateDocument d))) :
    Keeps s (Desk.Has Good I) hash := by
  unfold hash
  refine .bind .surroundings fun _ hs => ?_
  subst hs
  refine .bind .copy fun d hd => ?_
  refine .bind (.ofExcept _ _) fun path _ => ?_
  refine .bind .state fun before _ => ?_
  refine .bind (.ofExcept _ _) fun hash _ => ?_
  split
  · exact .pure trivial
  · refine .bind (.onWorld (.carryOut hI heffect _)) fun target _ => ?_
    refine .bind .state fun after _ => ?_
    have hmoved := hrehashed d hash after.world.files target hd
    refine .bind (.attempt (store_keeps hI (hstore _ hmoved))) fun r _ => ?_
    cases r with
    | ok u => exact .setCopy hmoved
    | error e =>
        refine .bind (.attempt (.onWorld (.carryOut hI heffect _))) fun _ _ => ?_
        exact .fail e

theorem thumbnail_keeps (scratch : String) :
    Keeps s (Desk.Has Good I) (thumbnail scratch) := by
  unfold thumbnail
  refine .bind .surroundings fun _ hs => ?_
  refine .bind .copy fun d _ => ?_
  split
  · exact .pure trivial
  · refine .bind (.ofExcept _ _) fun source _ => ?_
    refine .bind (.ofExcept _ _) fun target _ => ?_
    exact .bind (.onWorld (.extract _)) fun _ _ => .pure trivial

theorem parseContent_keeps (hcontent : ∀ d content, Good d → Good { d with content := content })
    (hI : s.Maintains kind I) (hset : ∀ d text, Good d → kind (.call (.setContent d.id text)))
    (scratch : String) : Keeps s (Desk.Has Good I) (parseContent scratch) := by
  unfold parseContent
  refine .bind .surroundings fun _ _ => ?_
  refine .bind .copy fun d hd => ?_
  refine .bind (.ofExcept _ _) fun path _ => ?_
  refine .bind (.onWorld (.extract _)) fun text _ => ?_
  refine .bind (.onWorld (.tell hI (hset d _ hd))) fun _ _ => ?_
  exact .setCopy (hcontent d _ hd)

theorem identify_keeps (sample : String) :
    Keeps s (World.Has I) (identify sample) := by
  unfold identify
  refine .bind .surroundings fun _ _ => ?_
  exact .bind (.changeRest (fun _ => rfl) (fun _ => rfl)) fun _ _ => .pure trivial

theorem detectLanguage_keeps (hlang : ∀ d lang, Good d → Good { d with lang := lang })
    (hI : s.Maintains kind I) (hstore : ∀ d, Good d → kind (.call (.updateDocument d))) :
    Keeps s (Desk.Has Good I) detectLanguage := by
  unfold detectLanguage
  refine .bind .surroundings fun _ _ => ?_
  refine .bind .copy fun d hd => ?_
  split
  · exact .pure trivial
  · dsimp only
    split
    · exact .pure trivial
    · refine .bind (.onWorld (identify_keeps _)) fun found _ => ?_
      cases found with
      | none => exact .pure trivial
      | some lang =>
          have hspoken := hlang d lang hd
          exact .bind (.setCopy hspoken) fun _ _ => store_keeps hI (hstore _ hspoken)

/-- The rules that are applied are those of the owner of the copy, as others have left them. -/
theorem rules_keeps (hmetadata : ∀ d metadata, Good d → Good { d with metadata := metadata })
    (hrules : ∀ d past st rules, Good d → I past st →
      (s.others past st).activeRules d.userId = .ok rules →
        ∀ d', Good d' → Good (applyRules s.registry d' rules))
    (hI : s.Maintains kind I) (hasks : ∀ m, m.OnBehalf (fun _ => False) → kind m)
    (hstore : ∀ d, Good d → kind (.call (.updateWithEntries d))) :
    Keeps s (Desk.Has Good I) rules := by
  unfold rules
  refine .bind .surroundings fun s' hs => ?_
  subst s'
  refine .bind .copy fun d hd => ?_
  refine .bind (.onWorld (.ask_of hI (hasks (.call (.activeRules _)) trivial) (fun _ _ => rfl) _
    (Q := fun rules => ∀ d', Good d' → Good (applyRules s.registry d' rules))
    fun past st rules hpast hasked => hrules d past st rules hd hpast hasked)) fun rules hgood => ?_
  refine .bind (.onWorld (.ask hI (hasks (.call (.documentEntries _)) trivial)
    (fun _ _ => rfl) _)) fun entries _ => ?_
  refine .bind (.onWorld (.ask hI (hasks (.call (.autoMatchValues _)) trivial)
    (fun _ _ => rfl) _)) fun values _ => ?_
  have hmatched : Good (({ d with metadata := some entries } : Document).autoMatch values).1 :=
    Document.autoMatch_induction (fun v _ _ h => Document.addEntry_induction hmetadata v.entry h)
      (hmetadata d _ hd)
  have hupdated := hgood _ hmatched
  exact .bind (.onWorld (.tell hI (hstore _ hupdated))) fun _ _ => .setCopy hupdated

theorem offer_keeps (d : Document) : Keeps s (World.Has I) (offer d) := by
  unfold offer
  refine .bind .surroundings fun _ _ => ?_
  refine .bind (.changeRest (fun _ => rfl) (fun _ => rfl)) fun _ _ => ?_
  exact .ofExcept _ _

theorem ftsIndex_keeps (hmetadata : ∀ d metadata, Good d → Good { d with metadata := metadata })
    (htags : ∀ d tags, Good d → Good { d with tags := tags })
    (hI : s.Maintains kind I) (hasks : ∀ m, m.OnBehalf (fun _ => False) → kind m) :
    Keeps s (Desk.Has Good I) ftsIndex := by
  have hoffer : Keeps s (Desk.Has Good I)
      (Act.copy >>= fun d => Act.onWorld (offer d)) :=
    .bind .copy fun d _ => .onWorld (offer_keeps d)
  have htagged : Keeps s (Desk.Has Good I) (Act.copy >>= fun d =>
      if d.tags.isNone then do
        let tags ← Act.onWorld
          (.ask (.documentTags d.id) fun st => .ok (st.documentTags d.id))
        Act.setCopy { d with tags := some tags }
        Act.onWorld (offer (← Act.copy))
      else do Act.onWorld (offer (← Act.copy))) := by
    refine .bind .copy fun d hd => ?_
    split
    · refine .bind (.onWorld (.ask hI (hasks (.call (.documentTags _)) trivial)
        (fun _ _ => rfl) _)) fun tags _ => ?_
      exact .bind (.setCopy (htags d _ hd)) fun _ _ => hoffer
    · exact hoffer
  unfold ftsIndex
  refine .bind .copy fun d hd => ?_
  dsimp only
  split
  · refine .bind (.onWorld (.ask hI (hasks (.call (.documentEntries _)) trivial)
      (fun _ _ => rfl) _)) fun entries _ => ?_
    exact .bind (.setCopy (hmetadata d _ hd)) fun _ _ => htagged
  · exact htagged

/-- Every step keeps an assertion that calls on behalf of its copy keep, and the
copy keeps its property. -/
theorem ofStep_keeps (hgood : Document.Lasting s.registry Good)
    (hI : s.Maintains (Moment.OnBehalf Good) I) (scratch : String) (step : Step) :
    Keeps s (Desk.Has Good I) (ofStep scratch step) := by
  have hasks : ∀ m : Moment, m.OnBehalf (fun _ => False) → m.OnBehalf Good :=
    fun m hm => hm.mono fun _ h => h.elim
  cases step with
  | hash => exact hash_keeps hgood.rehashed hI (fun _ => trivial) fun _ hd => hd
  | thumbnail => exact thumbnail_keeps scratch
  | parseContent => exact parseContent_keeps hgood.content hI (fun d _ hd => ⟨d, hd, rfl⟩) scratch
  | detectLanguage => exact detectLanguage_keeps hgood.lang hI fun _ hd => hd
  | rules =>
      exact rules_keeps hgood.metadata (fun _ _ _ rules _ _ _ => hgood.applyRules rules) hI hasks
        fun _ hd => hd
  | ftsIndex => exact ftsIndex_keeps hgood.metadata hgood.tags hI hasks

end Handler

end Docket
