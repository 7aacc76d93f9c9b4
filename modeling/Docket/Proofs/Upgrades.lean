import Docket.Interruption
import Docket.Store.Migration
import Docket.Proofs.Jobs

/-!
Upgrades of the schema, request by request.  The database may refuse any request of an upgrade, and
the process may stop before any of them; a migration is a transaction, so that what it has changed
is then as it was.  Over every history of such upgrades, with any rows written in between, a
database has carried out a first part of the migrations and has the schema of just these, from
where the next upgrade goes on.
-/

namespace Docket

/-! What scripts declare. -/

/-- A schema without rows. -/
structure Schema where
  tables : List TableShape := []
  indexes : List IndexShape := []
deriving DecidableEq, Repr

namespace Schema

/-- A schema with what a change declares. -/
def add (s : Schema) : SchemaChange → Schema
  | .createTable t => { s with tables := s.tables ++ [t] }
  | .createIndex i => { s with indexes := s.indexes ++ [i] }

/-- The schema that changes declare, starting from nothing. -/
def declared (changes : List SchemaChange) : Schema := changes.foldl add {}

/-- Whether a table or an index has a name. -/
def uses (s : Schema) (name : String) : Bool :=
  s.tables.any (·.name = name) || s.indexes.any (·.name = name)

/-- Whether a change declares something new, over columns that exist. -/
def accepts (s : Schema) : SchemaChange → Bool
  | .createTable t => !s.uses t.name
  | .createIndex i =>
    !s.uses i.name &&
      (s.tables.find? (·.name = i.table)).any fun t => i.columns.all (t.columns.map (·.name)).contains

/-- Whether each of some changes declares something new after those before it. -/
def acceptsAll (s : Schema) : List SchemaChange → Bool
  | [] => true
  | c :: rest => s.accepts c && (s.add c).acceptsAll rest

theorem acceptsAll_append (s : Schema) (before after : List SchemaChange) :
    s.acceptsAll (before ++ after) =
      (s.acceptsAll before && (before.foldl add s).acceptsAll after) := by
  induction before generalizing s with
  | nil => rfl
  | cons c rest ih => rw [List.cons_append, acceptsAll, acceptsAll, ih, List.foldl_cons,
      Bool.and_assoc]

end Schema

namespace DatabaseFile

variable {f g h : DatabaseFile} {c : SchemaChange} {m : Migration}

/-- The schema of a database, apart from the record of migrations. -/
def schema (f : DatabaseFile) : Schema where
  tables := f.tables.map (·.toTableShape)
  indexes := f.indexes

/-- Everything that is there stays there: tables with their rows, indexes and records. -/
structure KeptIn (f g : DatabaseFile) : Prop where
  tables : f.tables <+: g.tables
  indexes : f.indexes <+: g.indexes
  recorded : f.recorded <+: g.recorded

theorem KeptIn.refl (f : DatabaseFile) : f.KeptIn f :=
  ⟨List.prefix_refl _, List.prefix_refl _, List.prefix_refl _⟩

theorem KeptIn.trans (hfg : f.KeptIn g) (hgh : g.KeptIn h) : f.KeptIn h where
  tables := hfg.tables.trans hgh.tables
  indexes := hfg.indexes.trans hgh.indexes
  recorded := hfg.recorded.trans hgh.recorded

theorem uses_schema (name : String) :
    f.schema.uses name = ((f.table? name).isSome || f.hasIndex name) := by
  simp [Schema.uses, schema, table?, hasIndex, List.isSome_find?, List.any_map, Function.comp_def]

theorem recorded_congr (hrecord : g.record = f.record) : g.recorded = f.recorded := by
  rw [recorded, recorded, hrecord]

/-- A change of the schema adds a table without rows, or an index, or nothing. -/
theorem keptIn_of_change? (hchange : f.change? c = some g) :
    f.KeptIn g ∧ g.record = f.record := by
  have hadd : ∀ g' : DatabaseFile, f.tables <+: g'.tables → f.indexes <+: g'.indexes →
      g'.record = f.record → f.KeptIn g' ∧ g'.record = f.record := by
    intro g' htables hindexes hrecord
    exact ⟨⟨htables, hindexes, recorded_congr hrecord ▸ List.prefix_refl _⟩, hrecord⟩
  cases c with
  | createTable t =>
      simp only [change?] at hchange
      split at hchange
      · cases hchange
        exact ⟨.refl f, rfl⟩
      · split at hchange
        · cases hchange
        · cases hchange
          exact hadd _ (List.prefix_append _ _) (List.prefix_refl _) rfl
  | createIndex i =>
      simp only [change?] at hchange
      split at hchange
      · cases hchange
      · split at hchange
        · cases hchange
        · split at hchange
          · cases hchange
            exact ⟨.refl f, rfl⟩
          · split at hchange
            · cases hchange
            · cases hchange
              exact hadd _ (List.prefix_refl _) (List.prefix_append _ _) rfl

/-- A change that declares something new takes place, and declares just that. -/
theorem change?_of_accepts (haccepts : f.schema.accepts c = true) :
    ∃ g, f.change? c = some g ∧ g.schema = f.schema.add c := by
  cases c with
  | createTable t =>
      simp only [Schema.accepts, uses_schema, Bool.not_eq_true', Bool.or_eq_false_iff] at haccepts
      refine ⟨{ f with tables := f.tables ++ [{ toTableShape := t }] }, ?_, ?_⟩
      · simp [change?, haccepts.1, haccepts.2]
      · simp [schema, Schema.add]
  | createIndex i =>
      simp only [Schema.accepts, uses_schema, Bool.and_eq_true, Bool.not_eq_true',
        Bool.or_eq_false_iff] at haccepts
      obtain ⟨⟨hnotTable, hnotIndex⟩, hcolumns⟩ := haccepts
      refine ⟨{ f with indexes := f.indexes ++ [i] }, ?_, rfl⟩
      rw [schema, List.find?_map] at hcolumns
      change ((f.table? i.table).map (·.toTableShape)).any _ = true at hcolumns
      cases htable : f.table? i.table with
      | none =>
          rw [htable] at hcolumns
          cases hcolumns
      | some t =>
          rw [htable] at hcolumns
          have hall : i.columns.all (t.columns.map (·.name)).contains = true := hcolumns
          simp [change?, htable, hnotTable, hnotIndex, hall]

end DatabaseFile

/-! Requests. -/

/-- A request of an upgrade to the database. -/
inductive UpgradeRequest where
  /-- Keep a record of migrations from now on. -/
  | keepRecord
  | readVersion
  | start (m : Migration)
  | change (m : Migration) (c : SchemaChange)
  /-- Record the migration. -/
  | note (m : Migration)
  | commit (m : Migration)
deriving DecidableEq

/-- What becomes of a request. -/
inductive RequestFate where
  | heeded
  /-- The database does not carry it out. -/
  | refused (e : StoreError)
  /-- The process stops before it. -/
  | stopped

/-- What becomes of each request of an upgrade, in which no request is made twice. -/
abbrev Fates := UpgradeRequest → RequestFate

namespace Fates

/-- Every request is heeded. -/
def undisturbed : Fates := fun _ => .heeded

/-- Whether a request is carried out; if not, how the upgrade ends. -/
def settle (fates : Fates) (r : UpgradeRequest) (complaint : StoreError → MigrationError) :
    Except (Interruption MigrationError) Unit :=
  match fates r with
  | .heeded => .ok ()
  | .refused e => .error (.error (complaint e))
  | .stopped => .error .stop

end Fates

/-- What is recorded of a migration. -/
def Migration.entry (m : Migration) : Int × String := (m.version, m.description)

namespace DatabaseFile

/-- A database that keeps a record of migrations. -/
def withRecord (f : DatabaseFile) : DatabaseFile := { f with record := some f.recorded }

/-- Record a migration. No version is recorded twice. -/
def note (f : DatabaseFile) (m : Migration) : Except (Interruption MigrationError) DatabaseFile :=
  if f.recorded.any (·.1 = m.version) then
    .error (.error (.store (.notUnique "_migrations" ["version"])))
  else .ok { f with record := some (f.recorded ++ [m.entry]) }

/-- The working copy of a transaction after the changes of a migration, one by one. -/
def changeEach (fates : Fates) (m : Migration) (f : DatabaseFile) :
    List SchemaChange → Except (Interruption MigrationError) DatabaseFile
  | [] => .ok f
  | c :: rest =>
    match fates.settle (.change m c) fun _ => .failed m with
    | .error e => .error e
    | .ok _ =>
      match f.change? c with
      | none => .error (.error (.failed m))
      | some g => g.changeEach fates m rest

/-- The database after the transaction of a migration. Where the transaction is not committed, its
working copy is lost, and there is no such database. -/
def carryOut (fates : Fates) (f : DatabaseFile) (m : Migration) :
    Except (Interruption MigrationError) DatabaseFile := do
  fates.settle (.start m) .store
  let g ← f.changeEach fates m m.changes
  fates.settle (.note m) .store
  let g ← g.note m
  fates.settle (.commit m) .store
  return g

/-- Carry out migrations in order, up to the first that is not committed. -/
def carryOutAll (fates : Fates) (f : DatabaseFile) :
    List Migration → Except (Interruption MigrationError) Unit × DatabaseFile
  | [] => (.ok (), f)
  | m :: rest =>
    match f.carryOut fates m with
    | .ok g => g.carryOutAll fates rest
    | .error e => (.error e, f)

/-- An upgrade, request by request. -/
def upgradeUnder (fates : Fates) (f : DatabaseFile) :
    Except (Interruption MigrationError) Unit × DatabaseFile :=
  match fates.settle .keepRecord .store with
  | .error e => (.error e, f)
  | .ok _ =>
    let f := f.withRecord
    match fates.settle .readVersion .store with
    | .error e => (.error e, f)
    | .ok _ =>
      if f.version < 0 ∨ Int.pow 2 32 ≤ f.version then
        (.error (.error (.store (.outOfRange 0 f.version))), f)
      else f.carryOutAll fates (migrations.filter fun m => f.version < m.version)

/-! What one transaction does. -/

section Transaction

variable {fates : Fates} {f g h : DatabaseFile} {m m' : Migration} {changes : List SchemaChange}
  {e : Interruption MigrationError}

theorem changeEach_cons_eq_ok {c : SchemaChange} {rest : List SchemaChange}
    (hrun : f.changeEach fates m (c :: rest) = .ok h) :
    ∃ g, f.change? c = some g ∧ g.changeEach fates m rest = .ok h := by
  rw [changeEach] at hrun
  split at hrun
  · cases hrun
  · split at hrun
    · cases hrun
    · exact ⟨_, ‹_›, hrun⟩

/-- A change of a script fails only as the script. -/
theorem changeEach_eq_error (hrun : f.changeEach fates m changes = .error e) :
    e = .stop ∨ e = .error (.failed m) := by
  induction changes generalizing f with
  | nil => cases hrun
  | cons c rest ih =>
      rw [changeEach] at hrun
      split at hrun
      case h_1 hfate =>
        cases hrun
        rw [Fates.settle] at hfate
        split at hfate
        · cases hfate
        · cases hfate
          exact .inr rfl
        · cases hfate
          exact .inl rfl
      case h_2 =>
        split at hrun
        · cases hrun
          exact .inr rfl
        · exact ih hrun

theorem keptIn_of_changeEach (hrun : f.changeEach fates m changes = .ok g) :
    f.KeptIn g ∧ g.record = f.record := by
  induction changes generalizing f with
  | nil =>
      cases hrun
      exact ⟨.refl _, rfl⟩
  | cons c rest ih =>
      obtain ⟨f₁, hchange, hrest⟩ := changeEach_cons_eq_ok hrun
      obtain ⟨hkept, hrecord⟩ := keptIn_of_change? hchange
      obtain ⟨hkept', hrecord'⟩ := ih hrest
      exact ⟨hkept.trans hkept', hrecord'.trans hrecord⟩

/-- A script that declares only what is new leaves the schema that it declares. -/
theorem schema_of_changeEach (haccepts : f.schema.acceptsAll changes = true)
    (hrun : f.changeEach fates m changes = .ok g) :
    g.schema = changes.foldl Schema.add f.schema := by
  induction changes generalizing f with
  | nil =>
      cases hrun
      rfl
  | cons c rest ih =>
      rw [Schema.acceptsAll, Bool.and_eq_true] at haccepts
      obtain ⟨f₁, hchange, hrest⟩ := changeEach_cons_eq_ok hrun
      obtain ⟨f₁', hchange', hschema⟩ := change?_of_accepts haccepts.1
      obtain rfl : f₁ = f₁' := Option.some.inj (hchange.symm.trans hchange')
      rw [List.foldl_cons, ← hschema]
      exact ih (hschema ▸ haccepts.2) hrest

theorem note_eq_ok (hnote : f.note m = .ok g) :
    g = { f with record := some (f.recorded ++ [m.entry]) } := by
  rw [note] at hnote
  split at hnote
  · cases hnote
  · exact (Except.ok.inj hnote).symm

theorem carryOut_eq_ok (hrun : f.carryOut fates m = .ok h) :
    ∃ g, f.changeEach fates m m.changes = .ok g ∧ g.note m = .ok h := by
  obtain ⟨-, -, hrun⟩ := exists_of_bind_ok hrun
  obtain ⟨g, hchanges, hrun⟩ := exists_of_bind_ok hrun
  obtain ⟨-, -, hrun⟩ := exists_of_bind_ok hrun
  obtain ⟨g', hnote, hrun⟩ := exists_of_bind_ok hrun
  obtain ⟨-, -, hrun⟩ := exists_of_bind_ok hrun
  obtain rfl : g' = h := Except.ok.inj hrun
  exact ⟨g, hchanges, hnote⟩

/-- A migration that is committed adds to the schema and to the record, and to nothing else. -/
theorem keptIn_of_carryOut (hrun : f.carryOut fates m = .ok h) :
    f.KeptIn h ∧ h.recorded = f.recorded ++ [m.entry] := by
  obtain ⟨g, hchanges, hnote⟩ := carryOut_eq_ok hrun
  obtain ⟨hkept, hrecord⟩ := keptIn_of_changeEach hchanges
  rw [note_eq_ok hnote, recorded_congr hrecord]
  exact ⟨⟨hkept.tables, hkept.indexes, List.prefix_append _ _⟩, rfl⟩

theorem schema_of_carryOut (haccepts : f.schema.acceptsAll m.changes = true)
    (hrun : f.carryOut fates m = .ok h) : h.schema = m.changes.foldl Schema.add f.schema := by
  obtain ⟨g, hchanges, hnote⟩ := carryOut_eq_ok hrun
  rw [note_eq_ok hnote, ← schema_of_changeEach haccepts hchanges]
  rfl

theorem exists_of_bind_error {ε α β : Type} {x : Except ε α} {k : α → Except ε β} {i : ε}
    (hbind : (x >>= k) = .error i) : x = .error i ∨ ∃ a, x = .ok a ∧ k a = .error i := by
  cases x with
  | error j =>
      cases hbind
      exact .inl rfl
  | ok a => exact .inr ⟨a, rfl, hbind⟩

theorem settle_store_ne (r : UpgradeRequest) :
    fates.settle r .store ≠ .error (.error (.failed m)) := by
  intro hfate
  rw [Fates.settle] at hfate
  split at hfate <;> cases hfate

/-- Only its own script makes a migration fail. -/
theorem failed_of_carryOut (hrun : f.carryOut fates m = .error (.error (.failed m'))) : m' = m := by
  rcases exists_of_bind_error hrun with hfate | ⟨-, -, hrun⟩
  · exact absurd hfate (settle_store_ne _)
  rcases exists_of_bind_error hrun with hchanges | ⟨g, -, hrun⟩
  · rcases changeEach_eq_error hchanges with heq | heq
    · cases heq
    · cases heq
      rfl
  rcases exists_of_bind_error hrun with hfate | ⟨-, -, hrun⟩
  · exact absurd hfate (settle_store_ne _)
  rcases exists_of_bind_error hrun with hnote | ⟨_, -, hrun⟩
  · rw [note] at hnote
    split at hnote <;> cases hnote
  rcases exists_of_bind_error hrun with hfate | ⟨-, -, hrun⟩
  · exact absurd hfate (settle_store_ne _)
  · cases hrun

end Transaction

/-! What a whole upgrade leaves. -/

section Upgrade

variable {fates : Fates} {f g : DatabaseFile} {m : Migration}

theorem keptIn_carryOutAll (ms : List Migration) : f.KeptIn (f.carryOutAll fates ms).2 := by
  induction ms generalizing f with
  | nil => exact .refl f
  | cons m rest ih =>
      rw [carryOutAll]
      cases hrun : f.carryOut fates m with
      | ok g => exact (keptIn_of_carryOut hrun).1.trans ih
      | error e => exact .refl f

theorem keptIn_withRecord (f : DatabaseFile) : f.KeptIn f.withRecord :=
  ⟨List.prefix_refl _, List.prefix_refl _, List.prefix_refl _⟩

/-- An upgrade removes nothing, however it ends. -/
theorem keptIn_upgradeUnder (f : DatabaseFile) (fates : Fates) :
    f.KeptIn (f.upgradeUnder fates).2 := by
  rw [upgradeUnder]
  split
  · exact .refl f
  · dsimp only
    split
    · exact keptIn_withRecord f
    · split
      · exact keptIn_withRecord f
      · exact (keptIn_withRecord f).trans (keptIn_carryOutAll _)

end Upgrade

/-! Versions. -/

section Version

variable {f : DatabaseFile} {k : Nat} {m : Migration}

theorem le_foldl_max (v : Int) (vs : List Int) : ∀ w ∈ v :: vs, w ≤ vs.foldl max v := by
  induction vs generalizing v with
  | nil => simp
  | cons u vs ih =>
      intro w hw
      rw [List.foldl_cons]
      have hmax := ih (max v u) (max v u) List.mem_cons_self
      rcases List.mem_cons.mp hw with rfl | hw
      · exact Int.le_trans (Int.le_max_left ..) hmax
      · rcases List.mem_cons.mp hw with rfl | hw
        · exact Int.le_trans (Int.le_max_right ..) hmax
        · exact ih _ w (List.mem_cons_of_mem _ hw)

theorem foldl_max_mem (v : Int) (vs : List Int) : vs.foldl max v ∈ v :: vs := by
  induction vs generalizing v with
  | nil => simp
  | cons u vs ih =>
      rw [List.foldl_cons]
      have hmem := ih (max v u)
      rcases Int.le_total v u with hle | hle
      · rw [Int.max_eq_right hle] at hmem ⊢
        exact List.mem_cons_of_mem v hmem
      · rw [Int.max_eq_left hle] at hmem ⊢
        rcases List.mem_cons.mp hmem with heq | hmem
        · rw [heq]
          exact List.mem_cons_self
        · exact List.mem_cons_of_mem v (List.mem_cons_of_mem u hmem)

theorem le_version {r : Int × String} (hr : r ∈ f.recorded) : r.1 ≤ f.version := by
  have hmem : r.1 ∈ f.recorded.map (·.1) := List.mem_map_of_mem hr
  rw [version]
  split
  case h_1 hnil =>
    rw [hnil] at hmem
    cases hmem
  case h_2 v vs hcons =>
    rw [hcons] at hmem
    exact le_foldl_max v vs r.1 hmem

/-- The version is one of those that are recorded, if there is any. -/
theorem version_mem (hrecorded : f.recorded ≠ []) : f.version ∈ f.recorded.map (·.1) := by
  rw [version]
  split
  case h_1 hnil => exact absurd (List.map_eq_nil_iff.mp hnil) hrecorded
  case h_2 v vs hcons =>
    rw [hcons]
    exact foldl_max_mem v vs

theorem versions_migrations :
    migrations.map (·.version) = List.range' 1 migrations.length := by
  decide

theorem version_of_getElem? (hm : migrations[k]? = some m) : m.version = k + 1 := by
  have hlt : k < migrations.length := (List.getElem?_eq_some_iff.mp hm).1
  have hversion : (migrations.map (·.version))[k]? = some m.version := by
    rw [List.getElem?_map, hm]
    rfl
  rw [versions_migrations, List.getElem?_range' hlt] at hversion
  have := Option.some.inj hversion
  omega

/-- The migrations above a version are those that come after as many as it says. -/
theorem filter_version (k : Nat) :
    (migrations.filter fun m => (k : Int) < m.version) = migrations.drop k := by
  have hbefore : (migrations.take k).filter (fun m => (k : Int) < m.version) = [] := by
    rw [List.filter_eq_nil_iff]
    intro m hm
    obtain ⟨i, hi, rfl⟩ := List.mem_take_iff_getElem.mp hm
    have hlt := Nat.lt_of_lt_of_le hi (Nat.min_le_right ..)
    have := version_of_getElem? (List.getElem?_eq_getElem hlt)
    simp only [decide_eq_true_eq]
    omega
  have hafter : (migrations.drop k).filter (fun m => (k : Int) < m.version) = migrations.drop k := by
    rw [List.filter_eq_self]
    intro m hm
    obtain ⟨i, hi, rfl⟩ := List.mem_drop_iff_getElem.mp hm
    have := version_of_getElem? (List.getElem?_eq_getElem (Nat.add_comm k i ▸ hi))
    simp only [decide_eq_true_eq]
    omega
  conv => lhs; rw [← List.take_append_drop k migrations]
  rw [List.filter_append, hbefore, hafter, List.nil_append]

/-- Each migration declares only what those before it do not. -/
theorem acceptsAll_migrations :
    ({} : Schema).acceptsAll (migrations.flatMap (·.changes)) = true := by
  decide

end Version

/-! Upgrades that nothing disturbs. -/

section Undisturbed

variable {f g : DatabaseFile} {m : Migration}

theorem changeEach_undisturbed (changes : List SchemaChange) :
    f.changeEach .undisturbed m changes =
      (f.changeAll? changes).elim (.error (.error (.failed m))) .ok := by
  induction changes generalizing f with
  | nil => rfl
  | cons c rest ih =>
      rw [changeEach, changeAll?, List.foldlM_cons]
      cases hchange : f.change? c with
      | none => rfl
      | some g => exact ih

theorem changeAll?_of_accepts {changes : List SchemaChange}
    (haccepts : f.schema.acceptsAll changes = true) : ∃ g, f.changeAll? changes = some g := by
  induction changes generalizing f with
  | nil => exact ⟨f, rfl⟩
  | cons c rest ih =>
      rw [Schema.acceptsAll, Bool.and_eq_true] at haccepts
      obtain ⟨f₁, hchange, hschema⟩ := change?_of_accepts haccepts.1
      rw [changeAll?, List.foldlM_cons, hchange]
      exact ih (hschema ▸ haccepts.2)

theorem note_of_new (hnew : ∀ r ∈ f.recorded, r.1 < m.version) :
    f.note m =
      .ok { f with record := some (f.recorded ++ [m.entry]) } := by
  have hany : f.recorded.any (·.1 = m.version) = false := by
    rw [List.any_eq_false]
    intro r hr
    have := hnew r hr
    simp only [decide_eq_true_eq]
    omega
  rw [note, hany]
  rfl

theorem carryOut_undisturbed (hnew : ∀ r ∈ f.recorded, r.1 < m.version) :
    f.carryOut .undisturbed m =
      (f.migrate? m).elim (.error (.error (.failed m))) .ok := by
  have hchanges := changeEach_undisturbed (f := f) (m := m) m.changes
  rw [migrate?]
  cases hall : f.changeAll? m.changes with
  | none =>
      rw [hall] at hchanges
      change (f.changeEach .undisturbed m m.changes >>= _) = _
      rw [hchanges]
      rfl
  | some g =>
      rw [hall] at hchanges
      have hrecorded := recorded_congr (keptIn_of_changeEach hchanges).2
      have hnote := note_of_new (f := g) (hrecorded ▸ hnew)
      change (f.changeEach .undisturbed m m.changes >>= _) = _
      rw [hchanges]
      change (g.note m >>= _) = _
      rw [hnote]
      rfl

theorem carryOutAll_undisturbed {ms : List Migration}
    (hnew : ∀ m ∈ ms, ∀ r ∈ f.recorded, r.1 < m.version)
    (hsorted : ms.Pairwise (·.version < ·.version)) :
    f.carryOutAll .undisturbed ms =
      ((f.migrateAll ms).1.mapError .error, (f.migrateAll ms).2) := by
  induction ms generalizing f with
  | nil => rfl
  | cons m rest ih =>
      have hrun := carryOut_undisturbed (hnew m List.mem_cons_self)
      rw [carryOutAll, migrateAll]
      cases hmigrate : f.migrate? m with
      | none =>
          rw [hmigrate] at hrun
          rw [hrun]
          rfl
      | some g =>
          rw [hmigrate] at hrun
          rw [hrun]
          refine ih ?_ (List.pairwise_cons.mp hsorted).2
          intro m' hm' r hr
          have hlt := (List.pairwise_cons.mp hsorted).1 m' hm'
          rw [(keptIn_of_carryOut hrun).2] at hr
          rcases List.mem_append.mp hr with hr | hr
          · exact hnew m' (List.mem_cons_of_mem m hm') r hr
          · rw [List.mem_singleton.mp hr]
            exact Int.ofNat_lt.mpr hlt

/-- An upgrade whose requests are all heeded is the upgrade of the store. -/
theorem upgradeUnder_undisturbed (f : DatabaseFile) :
    f.upgradeUnder .undisturbed = (f.upgrade.1.mapError .error, f.upgrade.2) := by
  have hsorted : migrations.Pairwise (·.version < ·.version) := by
    rw [← List.pairwise_map, versions_migrations]
    exact List.pairwise_lt_range'
  have hnew : ∀ m ∈ migrations.filter fun m => f.withRecord.version < m.version,
      ∀ r ∈ f.withRecord.recorded, r.1 < m.version := by
    intro m hm r hr
    have habove : f.withRecord.version < m.version := by simpa using (List.mem_filter.mp hm).2
    exact Int.lt_of_le_of_lt (le_version hr) habove
  have hupgrade : f.upgrade =
      if f.withRecord.version < 0 ∨ Int.pow 2 32 ≤ f.withRecord.version then
        (.error (.store (.outOfRange 0 f.withRecord.version)), f.withRecord)
      else f.withRecord.migrateAll (migrations.filter fun m => f.withRecord.version < m.version) :=
    rfl
  rw [upgradeUnder, hupgrade]
  simp only [Fates.settle, Fates.undisturbed]
  by_cases hrange : f.withRecord.version < 0 ∨ Int.pow 2 32 ≤ f.withRecord.version
  · rw [if_pos hrange, if_pos hrange]
    rfl
  · rw [if_neg hrange, if_neg hrange]
    exact carryOutAll_undisturbed hnew (hsorted.filter _)

end Undisturbed

/-! Databases between migrations. -/

/-- A database that has carried out a number of migrations, the first ones: it records each of them
once, in their order, and has the schema that their scripts declare. -/
structure StandsAt (f : DatabaseFile) (k : Nat) : Prop where
  le : k ≤ migrations.length
  recorded : f.recorded = (migrations.take k).map Migration.entry
  schema : f.schema = .declared ((migrations.take k).flatMap (·.changes))

/-- How an upgrade may end when so many migrations have been carried out: with success after all of
them, which it has if nothing disturbs it, and with a failure only of the next one. -/
structure EndsAfter (fates : Fates) (result : Except (Interruption MigrationError) Unit) (k : Nat) :
    Prop where
  ok : result = .ok () → k = migrations.length
  undisturbed : fates = .undisturbed → result = .ok ()
  failed : ∀ m, result = .error (.error (.failed m)) → migrations[k]? = some m

theorem endsAfter_error {fates : Fates} {e : Interruption MigrationError} {k : Nat}
    (hdisturbed : fates ≠ .undisturbed)
    (hfailed : ∀ m, e = .error (.failed m) → migrations[k]? = some m) :
    EndsAfter fates (.error e) k where
  ok := by simp
  undisturbed h := absurd h hdisturbed
  failed m h := hfailed m (Except.error.inj h)

/-- A request other than for a change that is not heeded. -/
theorem endsAfter_of_settle {fates : Fates} {r : UpgradeRequest} {e : Interruption MigrationError}
    (hfate : fates.settle r .store = .error e) (k : Nat) : EndsAfter fates (.error e) k := by
  apply endsAfter_error
  · rintro rfl
    cases hfate
  · rintro m rfl
    exact absurd hfate (settle_store_ne r)

namespace StandsAt

variable {fates : Fates} {f g : DatabaseFile} {k : Nat} {m : Migration}

theorem empty : ({} : DatabaseFile).StandsAt 0 := ⟨Nat.zero_le _, rfl, rfl⟩

/-- The versions from one on, each once. -/
theorem versions (h : f.StandsAt k) : f.recorded.map (·.1) = (List.range' 1 k).map Int.ofNat := by
  have htake : (migrations.take k).map (·.version) = List.range' 1 k := by
    rw [List.map_take, versions_migrations, List.take_range'_of_length_ge h.le]
  rw [h.recorded, ← htake, List.map_map, List.map_map]
  rfl

theorem version_eq (h : f.StandsAt k) : f.version = k := by
  cases k with
  | zero =>
      have hnil : f.recorded.map (·.1) = [] := h.versions
      rw [version, hnil]
      rfl
  | succ k =>
      have hmem : ∀ v : Int, v ∈ f.recorded.map (·.1) ↔ 1 ≤ v ∧ v ≤ k + 1 := by
        intro v
        rw [h.versions]
        simp only [List.mem_map, List.mem_range'_1]
        constructor
        · rintro ⟨n, hn, rfl⟩
          simp only [Int.ofNat_eq_natCast]
          omega
        · intro hv
          exact ⟨v.toNat, by omega, Int.toNat_of_nonneg (by omega)⟩
      have hne : f.recorded ≠ [] := by
        intro hnil
        have := (hmem 1).mpr (by omega)
        rw [hnil] at this
        cases this
      have hle := ((hmem _).mp (version_mem hne)).2
      obtain ⟨r, hr, hlast⟩ := List.mem_map.mp ((hmem (k + 1)).mpr (by omega))
      have hge := le_version hr
      omega

theorem withRecord (h : f.StandsAt k) : f.withRecord.StandsAt k := ⟨h.le, h.recorded, h.schema⟩

/-- The next script declares only what is new. -/
theorem accepts_next (h : f.StandsAt k) (hm : migrations[k]? = some m) :
    f.schema.acceptsAll m.changes = true := by
  obtain ⟨hlt, rfl⟩ := List.getElem?_eq_some_iff.mp hm
  have hall := acceptsAll_migrations
  rw [← List.take_append_drop k migrations, List.drop_eq_getElem_cons hlt, List.flatMap_append,
    List.flatMap_cons, Schema.acceptsAll_append, Schema.acceptsAll_append, Bool.and_eq_true,
    Bool.and_eq_true] at hall
  rw [h.schema]
  exact hall.2.1

/-- A migration that is committed leads on to the next one. -/
theorem next (h : f.StandsAt k) (hm : migrations[k]? = some m)
    (hrun : f.carryOut fates m = .ok g) : g.StandsAt (k + 1) where
  le := (List.getElem?_eq_some_iff.mp hm).1
  recorded := by
    rw [(keptIn_of_carryOut hrun).2, h.recorded, List.take_add_one, hm]
    simp
  schema := by
    rw [schema_of_carryOut (h.accepts_next hm) hrun, h.schema, List.take_add_one, hm]
    simp [Schema.declared]

theorem carryOut_ok (h : f.StandsAt k) (hm : migrations[k]? = some m) :
    ∃ g, f.carryOut .undisturbed m = .ok g := by
  have hnew : ∀ r ∈ f.recorded, r.1 < m.version := by
    intro r hr
    have hle := le_version hr
    rw [h.version_eq] at hle
    have := version_of_getElem? hm
    omega
  obtain ⟨g, hall⟩ := changeAll?_of_accepts (h.accepts_next hm)
  rw [carryOut_undisturbed hnew, migrate?, hall]
  exact ⟨_, rfl⟩

/-- The migrations that are left lead on, up to the first that is not committed. -/
theorem carryOutAll (h : f.StandsAt k) :
    ∃ j, (f.carryOutAll fates (migrations.drop k)).2.StandsAt j ∧
      EndsAfter fates (f.carryOutAll fates (migrations.drop k)).1 j := by
  generalize hms : migrations.drop k = ms
  induction ms generalizing f k with
  | nil =>
      have hk := h.le
      have := List.drop_eq_nil_iff.mp hms
      exact ⟨k, h, fun _ => by omega, fun _ => rfl, fun m hfailed => by cases hfailed⟩
  | cons m rest ih =>
      have hm : migrations[k]? = some m := by rw [← List.head?_drop, hms, List.head?_cons]
      have hrest : migrations.drop (k + 1) = rest := by
        rw [← List.drop_drop, hms, List.drop_one, List.tail_cons]
      rw [DatabaseFile.carryOutAll]
      cases hrun : f.carryOut fates m with
      | ok g => exact ih (h.next hm hrun) hrest
      | error e =>
          refine ⟨k, h, endsAfter_error ?_ ?_⟩
          · rintro rfl
            obtain ⟨g, hok⟩ := h.carryOut_ok hm
            rw [hok] at hrun
            cases hrun
          · rintro m' rfl
            rw [failed_of_carryOut hrun]
            exact hm

/-- An upgrade goes on from where the database stands. -/
theorem upgradeUnder (h : f.StandsAt k) (fates : Fates) :
    ∃ j, (f.upgradeUnder fates).2.StandsAt j ∧ EndsAfter fates (f.upgradeUnder fates).1 j := by
  have hrange : ¬ ((k : Int) < 0 ∨ Int.pow 2 32 ≤ k) := by
    have hle := h.le
    have hfew : migrations.length ≤ 4 := by decide
    have hpow : Int.pow 2 32 = 4294967296 := rfl
    omega
  rw [DatabaseFile.upgradeUnder]
  split
  case h_1 e hfate => exact ⟨k, h, endsAfter_of_settle hfate k⟩
  case h_2 =>
    dsimp only
    split
    case h_1 e hfate => exact ⟨k, h.withRecord, endsAfter_of_settle hfate k⟩
    case h_2 =>
      rw [h.withRecord.version_eq, if_neg hrange, filter_version]
      exact h.withRecord.carryOutAll

/-- Once all migrations have been carried out, an upgrade changes nothing. -/
theorem upgradeUnder_of_all (h : f.StandsAt migrations.length) :
    (f.upgradeUnder fates).2 = f := by
  have hsame : f.withRecord = f := by
    cases hrecord : f.record with
    | none =>
        have hversion := h.version_eq
        rw [version, DatabaseFile.recorded, hrecord] at hversion
        cases hversion
    | some rows =>
        have hrecorded : f.recorded = rows := by
          rw [DatabaseFile.recorded, hrecord]
          rfl
        rw [DatabaseFile.withRecord, hrecorded, ← hrecord]
  rw [DatabaseFile.upgradeUnder]
  split
  · rfl
  · dsimp only
    split
    · exact hsame
    · split
      · exact hsame
      · rw [h.withRecord.version_eq, filter_version, List.drop_length]
        exact hsame

end StandsAt

/-! Histories. -/

/-- What happens to a database. -/
inductive FileEvent where
  /-- An upgrade, whatever becomes of its requests. -/
  | upgrade (fates : Fates)
  /-- Other rows in the tables that there are; the schema and the record are nobody else's. -/
  | write (rows : String → List (List String))

/-- The database after an event. -/
def after (f : DatabaseFile) : FileEvent → DatabaseFile
  | .upgrade fates => (f.upgradeUnder fates).2
  | .write rows => { f with tables := f.tables.map fun t => { t with rows := rows t.name } }

/-- What has become of a new database. -/
def ofHistory (events : List FileEvent) : DatabaseFile := events.foldl after {}

variable {f : DatabaseFile} {k : Nat}

theorem StandsAt.after (h : f.StandsAt k) (event : FileEvent) :
    ∃ j, (f.after event).StandsAt j := by
  cases event with
  | upgrade fates =>
      obtain ⟨j, hstands, -⟩ := h.upgradeUnder fates
      exact ⟨j, hstands⟩
  | write rows =>
      refine ⟨k, h.le, h.recorded, ?_⟩
      rw [← h.schema, DatabaseFile.after, DatabaseFile.schema, DatabaseFile.schema, List.map_map]
      rfl

/-- A database always stands between two migrations. -/
theorem ofHistory_stands (events : List FileEvent) : ∃ k, (ofHistory events).StandsAt k := by
  have hrun : ∀ f : DatabaseFile, (∃ k, f.StandsAt k) → ∃ k, (events.foldl after f).StandsAt k := by
    induction events with
    | nil => exact fun f h => h
    | cons event rest ih =>
        rintro f ⟨k, h⟩
        exact ih _ (h.after event)
  exact hrun {} ⟨0, .empty⟩

/-- Upgrades are taken up where they were left, and lose nothing: whatever has happened to a
database, it has carried out the first so many migrations and has their schema; a script that fails
leaves it at the version before; an upgrade that succeeds, as one that nothing disturbs does, has
carried out all; after that upgrades change nothing; and none changes what is in the tables. -/
theorem upgrade_resumes (events : List FileEvent) :
    let f := ofHistory events
    ∃ k, f.StandsAt k ∧ f.recorded.map (·.1) = (List.range' 1 k).map Int.ofNat ∧
      (∀ fates,
        (∀ m, (f.upgradeUnder fates).1 = .error (.error (.failed m)) →
          m ∈ migrations ∧ (f.upgradeUnder fates).2.StandsAt (m.version - 1)) ∧
        ((f.upgradeUnder fates).1 = .ok () →
          (f.upgradeUnder fates).2.StandsAt migrations.length ∧
            (f.upgradeUnder fates).2.recorded.map (·.1) =
              (List.range' 1 migrations.length).map Int.ofNat) ∧
        (k = migrations.length → (f.upgradeUnder fates).2 = f) ∧
        f.KeptIn (f.upgradeUnder fates).2) ∧
      f.upgrade.1 = .ok () ∧ (f.upgradeUnder .undisturbed).2 = f.upgrade.2 := by
  intro f
  obtain ⟨k, h⟩ : ∃ k, f.StandsAt k := ofHistory_stands events
  refine ⟨k, h, h.versions, fun fates => ?_, ?_, by rw [upgradeUnder_undisturbed]⟩
  · obtain ⟨j, hstands, hends⟩ := h.upgradeUnder fates
    refine ⟨fun m hfailed => ?_, fun hok => ?_, fun hall => ?_, keptIn_upgradeUnder f fates⟩
    · have hnext := hends.failed m hfailed
      have hversion : m.version - 1 = j := by rw [version_of_getElem? hnext, Nat.add_sub_cancel]
      rw [hversion]
      exact ⟨List.mem_of_getElem? hnext, hstands⟩
    · rw [← hends.ok hok]
      exact ⟨hstands, hstands.versions⟩
    · exact (hall ▸ h).upgradeUnder_of_all
  · obtain ⟨j, -, hends⟩ := h.upgradeUnder .undisturbed
    have hok := hends.undisturbed rfl
    rw [upgradeUnder_undisturbed] at hok
    cases hresult : f.upgrade.1 with
    | ok => rfl
    | error e =>
        rw [hresult] at hok
        cases hok

/-- No room is left for the tables of rules. -/
def diskFull : Fates
  | .change m _ => if m.version = 3 then .refused (.corrupt "database or disk is full") else .heeded
  | _ => .heeded

/-- An upgrade breaks off at the tables of rules, and a row is written into each table. -/
def halfway : List FileEvent := [.upgrade diskFull, .write fun name => [[name]]]

theorem upgrade_resumes_halfway :
    ∃ m, m.description = "create_rule_tables" ∧
      ((ofHistory halfway).upgradeUnder diskFull).1 = .error (.error (.failed m)) ∧
      ((ofHistory halfway).upgradeUnder diskFull).2.StandsAt 2 ∧
      (ofHistory halfway).upgrade.1 = .ok () ∧ (ofHistory halfway).upgrade.2.StandsAt 4 ∧
      (ofHistory halfway).KeptIn (ofHistory halfway).upgrade.2 ∧
      ((ofHistory halfway).table? "documents").map (·.rows) = some [["documents"]] := by
  obtain ⟨k, -, -, hruns, hok, hsame⟩ := upgrade_resumes halfway
  have hfails : ((ofHistory halfway).upgradeUnder diskFull).1 =
      .error (.error (.failed (migrations.get ⟨2, by decide⟩))) := by rfl
  obtain ⟨-, hstands⟩ := (hruns diskFull).1 _ hfails
  refine ⟨_, by decide, hfails, hstands, hok, ?_, ?_, by rfl⟩
  · rw [← hsame]
    exact ((hruns .undisturbed).2.1 (by rfl)).1
  · rw [← hsame]
    exact (hruns .undisturbed).2.2.2

end DatabaseFile

end Docket
