import Docket.Daemon.Service
import Docket.Proofs.Pass
import Docket.Proofs.Redaction

/-!
What is said of a search service that cannot be reached.  The error has the address of the service
with the credentials that are in it, and so have the job of the step and the event that tell of it;
only the line of the log that names the service hides them.
-/

namespace Docket

/-- Surroundings with another search index. -/
def Surroundings.searching (s : Surroundings) (search : Document → Except SearchError Unit) :
    Surroundings :=
  { s with search }

/-! ### Work without the search index -/

namespace Act

variable {σ α β : Type} {s : Surroundings} {offered : σ → List Document}

/-- Work that does the same whatever the search index is, and hands it nothing. -/
structure Blind (s : Surroundings) (offered : σ → List Document) (x : Act σ α) : Prop where
  alike : ∀ search w, x (s.searching search) w = x s w
  silent : ∀ w, offered (x s w).2 = offered w

namespace Blind

theorem pure (a : α) : Blind s offered (Pure.pure a) := ⟨fun _ _ => rfl, fun _ => rfl⟩

theorem bind {x : Act σ α} {f : α → Act σ β} (hx : Blind s offered x)
    (hf : ∀ a, Blind s offered (f a)) : Blind s offered (x >>= f) := by
  refine ⟨fun search w => ?_, fun w => ?_⟩
  · rcases heq : x s w with ⟨i | a, w'⟩
    · rw [bind_of_error heq, bind_of_error ((hx.alike search w).trans heq)]
    · rw [bind_of_ok heq, bind_of_ok ((hx.alike search w).trans heq), (hf a).alike]
  · have hsilent := hx.silent w
    rcases heq : x s w with ⟨i | a, w'⟩
    · rw [heq] at hsilent
      rw [bind_of_error heq]
      exact hsilent
    · rw [heq] at hsilent
      rw [bind_of_ok heq, (hf a).silent]
      exact hsilent

theorem attempt {x : Act σ α} (hx : Blind s offered x) : Blind s offered x.attempt := by
  refine ⟨fun search w => ?_, fun w => ?_⟩
  · simp only [Act.attempt, hx.alike]
  · rw [← hx.silent w]
    rcases attempt_cases x s w with ⟨r, hr, -⟩ | ⟨i, hi, -⟩
    · rw [hr]
    · rw [hi]

theorem call (c : StoreCall) (run : Calendar.Instant → Store → Except StoreError (α × Store)) :
    Blind s World.offered (Act.call c run) := by
  refine ⟨fun _ _ => rfl, fun w => ?_⟩
  unfold Act.call
  split
  · rfl
  · dsimp only
    split
    · rfl
    · split
      · rfl
      · rfl

theorem ask (c : StoreCall) (run : Store → Except StoreError α) :
    Blind s World.offered (Act.ask c run) :=
  call _ _

theorem tell (c : StoreCall) : Blind s World.offered (Act.tell c) := call _ _

theorem report (e : Event) : Blind s World.offered (Act.report e) :=
  ⟨fun _ _ => rfl, fun _ => rfl⟩

theorem onWorld {x : Act World α} (hx : Blind s World.offered x) :
    Blind s (fun desk : Desk => desk.world.offered) (Act.onWorld x) := by
  refine ⟨fun search desk => ?_, fun desk => hx.silent desk.world⟩
  simp only [Act.onWorld, Act.within, hx.alike]

end Blind

end Act

namespace Pass

variable {s : Surroundings} {id : String} {t : Step}

theorem begin_blind : Act.Blind s (fun desk : Desk => desk.world.offered) (begin id t) :=
  .bind (.onWorld (.tell _)) fun _ => .onWorld (.report _)

theorem conclude_blind (message : Option String) :
    Act.Blind s (fun desk : Desk => desk.world.offered) (conclude id t message) := by
  refine .bind (.attempt (.onWorld (.tell _))) fun r => ?_
  cases r with
  | error e =>
      exact .bind (.onWorld (.tell _)) fun _ => .bind (.onWorld (.report _)) fun _ => .pure _
  | ok u =>
      refine .bind (.onWorld (.report _)) fun _ => ?_
      split
      · exact .bind (.onWorld (.tell _)) fun _ => .pure _
      · exact .bind (.onWorld (.tell _)) fun _ => .pure _

end Pass

namespace Handler

variable {s : Surroundings}

/-- Work that breaks off in the same way whatever the search index is, or ends with handing the copy
to it and answers what the index does. -/
def Offers (s : Surroundings) (x : Handler) : Prop :=
  ∀ desk,
    (∃ i left, left.world.offered = desk.world.offered ∧
      ∀ search, x (s.searching search) desk = (.error i, left)) ∨
    ∃ left : Desk, left.world.offered = left.copy :: desk.world.offered ∧
      ∀ search, x (s.searching search) desk =
        ((search left.copy).mapError fun e => .error (.search e), left)

theorem Offers.after {α : Type} {x : Act Desk α} {f : α → Handler}
    (hx : Act.Blind s (fun desk : Desk => desk.world.offered) x) (hf : ∀ a, Offers s (f a)) :
    Offers s (x >>= f) := by
  intro desk
  have hsilent := hx.silent desk
  rcases heq : x s desk with ⟨i | a, desk'⟩
  · rw [heq] at hsilent
    refine .inl ⟨i, desk', hsilent, fun search => ?_⟩
    exact Act.bind_of_error ((hx.alike search desk).trans heq)
  · rw [heq] at hsilent
    have hbind : ∀ search, (x >>= f) (s.searching search) desk = f a (s.searching search) desk' :=
      fun search => Act.bind_of_ok ((hx.alike search desk).trans heq)
    rcases hf a desk' with ⟨i, left, hleft, hrun⟩ | ⟨left, hleft, hrun⟩
    · exact .inl ⟨i, left, hleft.trans hsilent, fun search => (hbind search).trans (hrun search)⟩
    · refine .inr ⟨left, ?_, fun search => (hbind search).trans (hrun search)⟩
      rw [hleft, ← hsilent]

theorem offers_copy : Offers s (Act.copy >>= fun d => Act.onWorld (offer d)) := by
  intro desk
  refine .inr ⟨{ desk with world := { desk.world with
    offered := desk.copy :: desk.world.offered } }, rfl, fun search => ?_⟩
  let answer : Act World Unit := Act.ofExcept .search (search desk.copy)
  let handed : World := { desk.world with offered := desk.copy :: desk.world.offered }
  have hoffer : (Act.copy >>= fun d => Act.onWorld (offer d)) (s.searching search) desk =
      ((answer (s.searching search) handed).1,
        { desk with world := (answer (s.searching search) handed).2 }) := rfl
  rw [hoffer]
  cases hsearch : search desk.copy with
  | ok u => simp only [answer, hsearch]; rfl
  | error e => simp only [answer, hsearch]; rfl

theorem ftsIndex_offers : Offers s ftsIndex := by
  have hcopy : Act.Blind s (fun desk : Desk => desk.world.offered) Act.copy :=
    ⟨fun _ _ => rfl, fun _ => rfl⟩
  have hset : ∀ d, Act.Blind s (fun desk : Desk => desk.world.offered) (Act.setCopy d) :=
    fun _ => ⟨fun _ _ => rfl, fun _ => rfl⟩
  have htagged : Offers s (do
      let d ← Act.copy
      if d.tags.isNone then
        let tags ← Act.onWorld (.ask (.documentTags d.id) fun st => .ok (st.documentTags d.id))
        Act.setCopy { d with tags := some tags }
      Act.onWorld (offer (← Act.copy))) := by
    refine .after hcopy fun d => ?_
    split
    · exact .after (.onWorld (.ask _ _)) fun tags => .after (hset _) fun _ => offers_copy
    · exact offers_copy
  unfold ftsIndex
  refine .after hcopy fun d => ?_
  split
  · exact .after (.onWorld (.ask _ _)) fun entries => .after (hset _) fun _ => htagged
  · exact htagged

end Handler

namespace Pass

variable {s : Surroundings} {id : String} {t : Step}

/-- The step that publishes a document, under its job. -/
def runLast (scratch id : String) : Act Desk (Option String) :=
  runStep (Handler.ofStep scratch .ftsIndex) id .ftsIndex

/-- The last step either does not come to hand over the copy, or it ends with what the search index
answers to it. -/
theorem runLast_cases (s : Surroundings) (scratch id : String) (desk : Desk) :
    (∃ r, r.2.world.offered = desk.world.offered ∧
      ∀ search, runLast scratch id (s.searching search) desk = r) ∨
    ∃ left : Desk, left.world.offered = left.copy :: desk.world.offered ∧
      ∀ search, runLast scratch id (s.searching search) desk =
        conclude id .ftsIndex (note ((search left.copy).mapError .search)) s left := by
  have hblind := @begin_blind s id .ftsIndex
  have hsilent := hblind.silent desk
  have halike := fun search => hblind.alike search desk
  rcases hbegin : begin id .ftsIndex s desk with ⟨i | u, began⟩
  · rw [hbegin] at hsilent
    refine .inl ⟨(.error i, began), hsilent, fun search => ?_⟩
    exact Act.bind_of_error ((halike search).trans hbegin)
  rw [hbegin] at hsilent
  have hrun : ∀ search, runLast scratch id (s.searching search) desk = (do
        let result ← Handler.ftsIndex.attempt
        conclude id .ftsIndex (note result)) (s.searching search) began :=
    fun search => Act.bind_of_ok ((halike search).trans hbegin)
  rcases Handler.ftsIndex_offers began with ⟨i, left, hleft, hstep⟩ | ⟨left, hleft, hstep⟩
  -- An error before the document is handed over is noted too, in the same words for every index.
  · cases i with
    | error e =>
        refine .inl ⟨conclude id .ftsIndex (note (.error e)) s left, ?_, fun search => ?_⟩
        · exact ((conclude_blind _).silent left).trans (hleft.trans hsilent)
        · rw [hrun, Act.bind_of_ok (Act.attempt_of_fail (hstep search)), (conclude_blind _).alike]
    | panic payload =>
        refine .inl ⟨(.error (.panic payload), left), hleft.trans hsilent, fun search => ?_⟩
        rw [hrun]
        apply Act.bind_of_error
        simp only [Act.attempt, hstep]
    | stop =>
        refine .inl ⟨(.error .stop, left), hleft.trans hsilent, fun search => ?_⟩
        rw [hrun, Act.bind_of_error (Act.attempt_of_stop (hstep search))]
  · refine .inr ⟨left, by rw [hleft, hsilent], fun search => ?_⟩
    have hattempt : Handler.ftsIndex.attempt (s.searching search) began =
        (.ok ((search left.copy).mapError .search), left) := by
      have hstep := hstep search
      cases hsearch : search left.copy with
      | ok u =>
          rw [hsearch] at hstep
          exact Act.attempt_of_ok hstep
      | error e =>
          rw [hsearch] at hstep
          exact Act.attempt_of_fail hstep
    rw [hrun, Act.bind_of_ok hattempt, (conclude_blind _).alike]

/-- That a step has failed, and why, stands in its job and is published. -/
structure Discloses (s : Surroundings) (id : String) (t : Step) (message : String)
    (before after : Desk) : Prop where
  noted : ∃ later, after.world.moments =
    later ++ .call (.finishJob id t (some message)) :: before.world.moments
  stored : ∀ r ∈ (before.next s (.call (.finishJob id t (some message)))).world.store.rowsOf id t,
    r.message = some message
  published : after.world.events = .stepFinished id t (some message) :: before.world.events

/-- A last call makes a moment or none, and no event. -/
theorem last_call {c : StoreCall} (hjob : c.job? = some (id, t)) (desk : Desk)
    (answer : Option String) :
    ∃ later, ((do
        Act.onWorld (.tell c)
        return answer : Act Desk (Option String)) s desk).2.world.moments =
        later ++ desk.world.moments ∧
      ((do
        Act.onWorld (.tell c)
        return answer : Act Desk (Option String)) s desk).2.world.events = desk.world.events := by
  rcases Act.onWorld_tell_cases s hjob desk with ⟨-, htell⟩ | ⟨-, e, -, htell⟩ | ⟨-, -, htell⟩
  · rw [Act.bind_of_error htell]
    exact ⟨[], rfl, rfl⟩
  · rw [Act.bind_of_error htell]
    exact ⟨[.call c], rfl, rfl⟩
  · rw [Act.bind_of_ok htell]
    exact ⟨[.call c], rfl, rfl⟩

theorem conclude_discloses {message : String} {desk : Desk}
    (hgo : s.stops desk.world.moments = false)
    (hheed : s.refuses desk.world.moments (.finishJob id t (some message)) = none) :
    Discloses s id t message desk (conclude id t (some message) s desk).2 := by
  let noted := desk.next s (.call (.finishJob id t (some message)))
  have hfinish : Act.onWorld (finish id t (some message)) s desk = (.ok (), noted) := by
    rcases Act.onWorld_tell_cases s (c := .finishJob id t (some message)) rfl desk with
      ⟨hstop, -⟩ | ⟨-, e, hrefuse, -⟩ | ⟨-, -, htell⟩
    · rw [hgo] at hstop
      cases hstop
    · rw [hheed] at hrefuse
      cases hrefuse
    · exact htell
  have hstored : ∀ r ∈ noted.world.store.rowsOf id t, r.message = some message := by
    have hkeeps : JobRow.KeepsKey
        (.ended false (some message) (s.clock desk.world.moments)) := fun _ => ⟨rfl, rfl⟩
    have hstore : noted.world.store = (s.others desk.world.moments desk.world.store).changeJob id t
        (.ended false (some message) (s.clock desk.world.moments)) := by
      simp only [noted, Desk.next_store, Surroundings.after, hheed]
      rfl
    intro r hr
    rw [hstore, Store.rowsOf_changeJob hkeeps] at hr
    obtain ⟨before, -, rfl⟩ := List.mem_map.mp hr
    rfl
  cases hmandatory : t.mandatory with
  | true =>
      rw [conclude_of_deferred hmandatory hfinish]
      obtain ⟨later, hmoments, hevents⟩ := last_call (s := s) (c := .requeueJob id t) rfl
        (noted.reported (.stepFinished id t (some message))) (some message)
      exact ⟨⟨later, hmoments⟩, hstored, hevents⟩
  | false =>
      rw [conclude_of_cleared (.inl hmandatory) hfinish]
      obtain ⟨later, hmoments, hevents⟩ := last_call (s := s) (c := .clearJob id t) rfl
        (noted.reported (.stepFinished id t (some message))) none
      exact ⟨⟨later, hmoments⟩, hstored, hevents⟩

end Pass

/-! ### Addresses with credentials -/

namespace SearchService

/-- An address with its credentials, if it has any. -/
def addressWith (scheme host path : String) (user : Option String) : String :=
  scheme ++ "://" ++ user.elim "" (· ++ "@") ++ host ++ path

variable {scheme host path : String} {user user' : Option String}

theorem addressWith_inj :
    addressWith scheme host path user = addressWith scheme host path user' ↔ user = user' := by
  refine ⟨fun h => ?_, fun h => by rw [h]⟩
  have hlist := congrArg String.toList h
  simp only [addressWith, String.toList_append, List.append_cancel_right_eq, List.append_assoc,
    List.append_cancel_left_eq] at hlist
  cases user with
  | none =>
      cases user' with
      | none => rfl
      | some u => simp at hlist
  | some u =>
      cases user' with
      | none => simp at hlist
      | some u' => simpa [String.toList_inj] using hlist

theorem dropSlashes_append {front : String} (hfront : ∃ c ∈ front.toList.getLast?, c ≠ '/') :
    dropSlashes (front ++ path) = front ++ dropSlashes path := by
  obtain ⟨c, hc, hne⟩ := hfront
  obtain ⟨before, hlist⟩ := List.getLast?_eq_some_iff.mp hc
  have hstop : front.toList.reverse.dropWhile (· = '/') = front.toList.reverse := by
    simp [hlist, hne]
  apply String.toList_inj.mp
  rw [dropSlashes, dropSlashes, String.toList_append, String.toList_append, String.toList_ofList,
    String.toList_ofList, List.reverse_append, List.dropWhile_append]
  split
  · next hpath =>
      rw [List.isEmpty_iff.mp hpath, hstop]
      simp
  · simp

theorem dropSlashes_addressWith (hhost : '/' ∉ host.toList) (hempty : host ≠ "") :
    dropSlashes (addressWith scheme host path user) =
      addressWith scheme host (dropSlashes path) user := by
  apply dropSlashes_append
  obtain ⟨c, hc⟩ := Option.ne_none_iff_exists'.mp
    (mt List.getLast?_eq_none_iff.mp (show host.toList ≠ [] by simpa using hempty))
  refine ⟨c, ?_, fun heq => hhost (heq ▸ List.mem_of_getLast? hc)⟩
  rw [String.toList_append, List.getLast?_append, hc]
  rfl

/-- A request is made: the address is one of a web service, and the key can be sent. -/
def Asks (service : SearchService) : Prop :=
  isWebAddress service.address = true ∧ service.apiKey.all isHeaderText = true

theorem publish_unreachable {service : SearchService} (h : service.Asks) {documents : List Document}
    (hdocuments : documents ≠ []) :
    service.publish .unreachable documents = .error (.connection service.address) := by
  have hsome : documents.isEmpty = false := by simpa using hdocuments
  simp [publish, hsome, h.1, h.2]

end SearchService

/-- Settings with credentials in the address of the service, or without. -/
def SearchSettings.withUser (settings : SearchSettings) (scheme host path : String)
    (user : Option String) : SearchSettings :=
  { settings with url := SearchService.addressWith scheme host path user }

/-- The text of the error where the service cannot be reached, as a step is told it. -/
def SearchSettings.unreachable (settings : SearchSettings) : String :=
  (PipelineError.search (.connection (SearchService.ofSettings settings).address)).message

/-- Surroundings whose search index is a service that cannot be reached. -/
def Surroundings.cutOff (s : Surroundings) (settings : SearchSettings) : Surroundings :=
  s.searching fun d => (SearchService.ofSettings settings).publish .unreachable [d]

namespace SearchService

variable {scheme host path : String} {user user' : Option String}

theorem redactUrl_addressWith (hscheme : ¬ Text.schemeMark <:+: scheme.toList)
    (hhost : '/' ∉ host.toList) (hlast : '@' ∉ host.toList)
    (hpath : Text.FollowsAuthority path.toList) {u : String} (huser : '/' ∉ u.toList) :
    Text.redactUrl (addressWith scheme host path (some u)) =
      scheme ++ "://****@" ++ host ++ path := by
  rw [← Text.redactUrl_append hscheme huser hhost hlast hpath]
  simp [addressWith, String.append_assoc]

/-- The log has the same of two addresses with credentials. -/
theorem searchRecord_withUser (settings : SearchSettings)
    (hscheme : ¬ Text.schemeMark <:+: scheme.toList)
    (hhost : '/' ∉ host.toList) (hlast : '@' ∉ host.toList)
    (hpath : Text.FollowsAuthority path.toList) {u u' : String} (huser : '/' ∉ u.toList)
    (huser' : '/' ∉ u'.toList) (c : Config) :
    Service.searchRecord { c with search := some (settings.withUser scheme host path (some u)) } =
      Service.searchRecord
        { c with search := some (settings.withUser scheme host path (some u')) } := by
  simp only [Service.searchRecord, SearchSettings.withUser,
    redactUrl_addressWith hscheme hhost hlast hpath huser,
    redactUrl_addressWith hscheme hhost hlast hpath huser']

theorem address_withUser (settings : SearchSettings) (hhost : '/' ∉ host.toList)
    (hempty : host ≠ "") :
    (ofSettings (settings.withUser scheme host path user)).address =
      addressWith scheme host (dropSlashes path) user :=
  dropSlashes_addressWith hhost hempty

/-- A text in front of two addresses tells them apart exactly if their credentials differ. -/
theorem append_address_inj (settings : SearchSettings) (hhost : '/' ∉ host.toList)
    (hempty : host ≠ "") (front : String) :
    front ++ (ofSettings (settings.withUser scheme host path user)).address =
      front ++ (ofSettings (settings.withUser scheme host path user')).address ↔ user = user' := by
  rw [address_withUser settings hhost hempty, address_withUser settings hhost hempty]
  constructor
  · intro h
    have hlist := congrArg String.toList h
    rw [String.toList_append, String.toList_append, List.append_cancel_left_eq,
      String.toList_inj] at hlist
    exact addressWith_inj.mp hlist
  · rintro rfl
    rfl

theorem unreachable_eq_iff (settings : SearchSettings) (hhost : '/' ∉ host.toList)
    (hempty : host ≠ "") :
    (settings.withUser scheme host path user).unreachable =
      (settings.withUser scheme host path user').unreachable ↔ user = user' := by
  have h := @append_address_inj scheme host path user user' settings hhost hempty
    ("Search index update failed: " ++ "Cannot reach search service at ")
  rwa [String.append_assoc, String.append_assoc] at h

/-- Two settings that differ in nothing but the credentials in the address of a service that cannot
be reached.  The errors tell them apart, and so do the job and the event of a step that has handed over
its document to the service, unless the process stops or the store refuses to note the end; a step that
breaks off before does the same with both.  The log has one line for both. -/
theorem unreachable_tells_credentials (settings : SearchSettings)
    (hscheme : ¬ Text.schemeMark <:+: scheme.toList) (hhost : '/' ∉ host.toList)
    (hlast : '@' ∉ host.toList) (hempty : host ≠ "") (hpath : Text.FollowsAuthority path.toList)
    (huser : ∀ u ∈ user, '/' ∉ u.toList) (huser' : ∀ u ∈ user', '/' ∉ u.toList)
    (hasks : (ofSettings (settings.withUser scheme host path user)).Asks)
    (hasks' : (ofSettings (settings.withUser scheme host path user')).Asks) :
    let a := settings.withUser scheme host path user
    let b := settings.withUser scheme host path user'
    (∀ documents ≠ [], ∃ e e',
      (ofSettings a).publish .unreachable documents = .error e ∧
      (ofSettings b).publish .unreachable documents = .error e' ∧
      (e.message = e'.message ↔ user = user')) ∧
    (a.unreachable = b.unreachable ↔ user = user') ∧
    (∀ (s : Surroundings) (scratch id : String) (desk : Desk),
      (∃ r, r.2.world.offered = desk.world.offered ∧
        Pass.runLast scratch id (s.cutOff a) desk = r ∧
        Pass.runLast scratch id (s.cutOff b) desk = r) ∨
      ∃ left : Desk, left.world.offered = left.copy :: desk.world.offered ∧
        Pass.runLast scratch id (s.cutOff a) desk =
          Pass.conclude id .ftsIndex (some a.unreachable) s left ∧
        Pass.runLast scratch id (s.cutOff b) desk =
          Pass.conclude id .ftsIndex (some b.unreachable) s left ∧
        (s.stops left.world.moments = false →
          (s.refuses left.world.moments (.finishJob id .ftsIndex (some a.unreachable)) = none →
            Pass.Discloses s id .ftsIndex a.unreachable left
              (Pass.runLast scratch id (s.cutOff a) desk).2) ∧
          (s.refuses left.world.moments (.finishJob id .ftsIndex (some b.unreachable)) = none →
            Pass.Discloses s id .ftsIndex b.unreachable left
              (Pass.runLast scratch id (s.cutOff b) desk).2))) ∧
    (user.isSome = true → user'.isSome = true → ∀ c : Config,
      Service.searchRecord { c with search := some a } =
        Service.searchRecord { c with search := some b }) := by
  intro a b
  have hpublish : ∀ documents ≠ [], (ofSettings a).publish .unreachable documents =
      .error (.connection (ofSettings a).address) := fun _ => publish_unreachable hasks
  have hpublish' : ∀ documents ≠ [], (ofSettings b).publish .unreachable documents =
      .error (.connection (ofSettings b).address) := fun _ => publish_unreachable hasks'
  refine ⟨fun documents hdocuments => ?_, unreachable_eq_iff settings hhost hempty,
    fun s scratch id desk => ?_, fun hsome hsome' c => ?_⟩
  · exact ⟨_, _, hpublish documents hdocuments, hpublish' documents hdocuments,
      append_address_inj settings hhost hempty _⟩
  · rcases Pass.runLast_cases s scratch id desk with ⟨r, hr, hrun⟩ | ⟨left, hleft, hrun⟩
    · exact .inl ⟨r, hr, hrun _, hrun _⟩
    have ha : Pass.runLast scratch id (s.cutOff a) desk =
        Pass.conclude id .ftsIndex (some a.unreachable) s left := by
      refine (hrun _).trans ?_
      rw [hpublish [left.copy] (List.cons_ne_nil _ _)]
      rfl
    have hb : Pass.runLast scratch id (s.cutOff b) desk =
        Pass.conclude id .ftsIndex (some b.unreachable) s left := by
      refine (hrun _).trans ?_
      rw [hpublish' [left.copy] (List.cons_ne_nil _ _)]
      rfl
    refine .inr ⟨left, hleft, ha, hb, fun hgo => ⟨fun hheed => ?_, fun hheed => ?_⟩⟩
    · rw [ha]
      exact Pass.conclude_discloses hgo hheed
    · rw [hb]
      exact Pass.conclude_discloses hgo hheed
  · obtain ⟨u, rfl⟩ := Option.isSome_iff_exists.mp hsome
    obtain ⟨u', rfl⟩ := Option.isSome_iff_exists.mp hsome'
    exact searchRecord_withUser settings hscheme hhost hlast hpath (huser u rfl) (huser' u' rfl) c

/-- Settings for a service at a socket where nobody listens. -/
def nobody (user : String) : SearchSettings :=
  SearchSettings.withUser { url := "" } "http" "127.0.0.1:9" "/" (some user)

/-- A document that is still to be published. -/
def unpublished : Desk := ⟨.stray [.pending "d" .ftsIndex default], .stray⟩

theorem unreachable_tells_credentials_nobody :
    (ofSettings (nobody "alice:one")).Asks ∧ (ofSettings (nobody "bob:two")).Asks ∧
    (nobody "alice:one").unreachable ≠ (nobody "bob:two").unreachable ∧
    ∃ left,
      Pass.Discloses .bare "d" .ftsIndex (nobody "alice:one").unreachable left
        (Pass.runLast "/scratch" "d" (Surroundings.bare.cutOff (nobody "alice:one"))
          unpublished).2 ∧
      Pass.Discloses .bare "d" .ftsIndex (nobody "bob:two").unreachable left
        (Pass.runLast "/scratch" "d" (Surroundings.bare.cutOff (nobody "bob:two"))
          unpublished).2 := by
  have hasks : (ofSettings (nobody "alice:one")).Asks := ⟨by decide +kernel, rfl⟩
  have hasks' : (ofSettings (nobody "bob:two")).Asks := ⟨by decide +kernel, rfl⟩
  have hpath : Text.FollowsAuthority "/".toList := fun c hc => (Option.some.inj hc).symm
  have huser : ∀ u ∈ some "alice:one", '/' ∉ u.toList := by
    rintro u ⟨⟩
    decide
  have huser' : ∀ u ∈ some "bob:two", '/' ∉ u.toList := by
    rintro u ⟨⟩
    decide
  obtain ⟨-, hmessage, hsteps, -⟩ := unreachable_tells_credentials { url := "" } (by decide)
    (by decide) (by decide) (by decide) hpath huser huser' hasks hasks'
  refine ⟨hasks, hasks', mt hmessage.mp (by decide), ?_⟩
  rcases hsteps .bare "/scratch" "d" unpublished with ⟨r, hnone, hrun, -⟩ | ⟨left, -, -, -, htold⟩
  · have hoffered : r.2.world.offered.length = 1 := by
      rw [← hrun]
      decide +kernel
    rw [hnone] at hoffered
    cases hoffered
  · obtain ⟨ha, hb⟩ := htold rfl
    exact ⟨left, ha rfl, hb rfl⟩

/-- The log has one line for both users, but the errors tell them apart, and so do the job and the
event of the step. -/
theorem users_told_apart :
    (∀ c : Config, Service.searchRecord { c with search := some (nobody "alice:one") } =
      Service.searchRecord { c with search := some (nobody "bob:two") }) ∧
    (∃ e e', (ofSettings (nobody "alice:one")).publish .unreachable [.stray] = .error e ∧
      (ofSettings (nobody "bob:two")).publish .unreachable [.stray] = .error e' ∧
      e.message ≠ e'.message) ∧
    (Pass.runLast "/scratch" "d" (Surroundings.bare.cutOff (nobody "alice:one"))
        unpublished).2.world.moments ≠
      (Pass.runLast "/scratch" "d" (Surroundings.bare.cutOff (nobody "bob:two"))
        unpublished).2.world.moments ∧
    (Pass.runLast "/scratch" "d" (Surroundings.bare.cutOff (nobody "alice:one"))
        unpublished).2.world.events ≠
      (Pass.runLast "/scratch" "d" (Surroundings.bare.cutOff (nobody "bob:two"))
        unpublished).2.world.events := by
  have hredacted : Text.redactUrl (nobody "alice:one").url =
      Text.redactUrl (nobody "bob:two").url := by decide +kernel
  refine ⟨fun c => ?_, ⟨_, _, rfl, rfl, by decide +kernel⟩, by decide +kernel, by decide +kernel⟩
  simp only [Service.searchRecord, hredacted]
  rfl

end SearchService

end Docket
