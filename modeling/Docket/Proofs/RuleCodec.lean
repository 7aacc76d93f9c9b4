import Docket.Proofs.RuleBook
import Docket.Rule.Json

/-!
Rules and their JSON values.  A reader and a writer of some kind of value are inverse to each other
on the values that fit: they are read back from what is written of them, and no others are ever
read.  Fields, lists and records are inverse if what they are made of is.  So a rule survives its
JSON value, and whatever value a rule was read from, what is written of it is one and the same.
-/

namespace Docket

namespace Json

variable {α : Type} {read : Json → Option α} {write : α → Json} {Fits : α → Prop}

theorem mapM_eq_some {β : Type} {f : α → Option β} {g : α → β} {as : List α}
    (h : ∀ a ∈ as, f a = some (g a)) : as.mapM f = some (as.map g) := by
  induction as with
  | nil => rfl
  | cons a as ih =>
      rw [List.mapM_cons, h a List.mem_cons_self, ih fun b hb => h b (List.mem_cons_of_mem a hb)]
      rfl

/-- A reader takes back what a writer makes of the values that fit, and reads no others. -/
structure Inverse (read : Json → Option α) (write : α → Json) (Fits : α → Prop) : Prop where
  reads : ∀ {a}, Fits a → read (write a) = some a
  fits : ∀ {j a}, read j = some a → Fits a

theorem Inverse.reads_iff (h : Inverse read write Fits) {a : α} :
    read (write a) = some a ↔ Fits a :=
  ⟨h.fits, h.reads⟩

theorem Inverse.reads_again (h : Inverse read write Fits) {j : Json} {a : α}
    (hread : read j = some a) : read (write a) = some a :=
  h.reads (h.fits hread)

/-! Single values. -/

def IsInt64 (n : Int) : Prop := -Int.pow 2 63 ≤ n ∧ n < Int.pow 2 63

instance (n : Int) : Decidable (IsInt64 n) := inferInstanceAs (Decidable (_ ∧ _))

theorem int64_inverse : Inverse int64? .int IsInt64 where
  reads h := if_pos h
  fits {j n} h := by
    cases j with
    | int m =>
        obtain ⟨hfits, heq⟩ := Option.ite_none_right_eq_some.mp h
        exact Option.some.inj heq ▸ hfits
    | _ => cases h

theorem str_inverse : Inverse str? .str fun _ => True := ⟨fun _ => rfl, fun _ => trivial⟩

theorem bool_inverse : Inverse bool? .bool fun _ => True := ⟨fun _ => rfl, fun _ => trivial⟩

theorem named_inverse {ofName? : String → Option α} {name : α → String}
    (h : ∀ a, ofName? (name a) = some a) :
    Inverse (named? ofName?) (fun a => .str (name a)) fun _ => True :=
  ⟨fun {a} _ => h a, fun _ => trivial⟩

/-- A value that may be missing, if what is written of it is never `null` where it is there. -/
theorem Inverse.nullable (h : Inverse read write Fits) (hwrite : ∀ a, write a ≠ .null) :
    Inverse (nullable read) (ofOption write) fun o => ∀ a ∈ o, Fits a where
  reads {o} ho := by
    cases o with
    | none => rfl
    | some a =>
        have hread : (read (write a)).map some = some (some a) := by rw [h.reads (ho a rfl)]; rfl
        rw [← hread, ofOption]
        cases hj : write a with
        | null => exact absurd hj (hwrite a)
        | _ => rfl
  fits {j o} hread := by
    cases j with
    | null =>
        cases hread
        simp
    | _ =>
        obtain ⟨a, ha, rfl⟩ := Option.map_eq_some_iff.mp hread
        rintro b ⟨⟩
        exact h.fits ha

theorem Inverse.listOf (h : Inverse read write Fits) :
    Inverse (listOf read) (fun as => .arr (as.map write)) fun as => ∀ a ∈ as, Fits a where
  reads {as} has := by
    change (as.map write).mapM read = some as
    have hall : ∀ a ∈ as, (read ∘ write) a = some (id a) := fun a ha => h.reads (has a ha)
    rw [List.mapM_map, mapM_eq_some hall, List.map_id]
  fits {j as} hread := by
    cases j with
    | arr items =>
        change items.mapM read = some as at hread
        induction items generalizing as with
        | nil =>
            cases hread
            simp
        | cons j items ih =>
            rw [List.mapM_cons] at hread
            obtain ⟨a, ha, hread⟩ := Option.bind_eq_some_iff.mp hread
            obtain ⟨rest, hrest, hread⟩ := Option.bind_eq_some_iff.mp hread
            cases hread
            exact List.forall_mem_cons.mpr ⟨h.fits ha, ih hrest⟩
    | _ => cases hread

/-! Fields of records. -/

theorem Inverse.required (h : Inverse read write Fits) {a : α} (ha : Fits a) :
    required read (some (write a)) = some a :=
  h.reads ha

theorem Inverse.withDefault (h : Inverse read write Fits) (default : α) {a : α} (ha : Fits a) :
    withDefault default read (some (write a)) = some a :=
  h.reads ha

theorem Inverse.fits_required (h : Inverse read write Fits) {field : Option Json} {a : α}
    (hread : Json.required read field = some a) : Fits a := by
  obtain ⟨j, -, hj⟩ := Option.bind_eq_some_iff.mp hread
  exact h.fits hj

theorem Inverse.fits_withDefault (h : Inverse read write Fits) {default : α}
    (hdefault : Fits default) {field : Option Json} {a : α}
    (hread : Json.withDefault default read field = some a) : Fits a := by
  cases field with
  | none =>
      cases hread
      exact hdefault
  | some j => exact h.fits hread

theorem filter_name_eq {members : List (String × Json)} (h : (members.map (·.1)).Nodup)
    {m : String × Json} (hm : m ∈ members) : members.filter (·.1 = m.1) = [m] := by
  induction members with
  | nil => cases hm
  | cons a rest ih =>
      obtain ⟨hnew, hrest⟩ := List.nodup_cons.mp h
      rcases List.mem_cons.mp hm with rfl | hm
      · have hnone : rest.filter (·.1 = m.1) = [] := by
          refine List.filter_eq_nil_iff.mpr fun b hb heq => hnew ?_
          exact List.mem_map.mpr ⟨b, hb, of_decide_eq_true heq⟩
        rw [List.filter_cons_of_pos (by simp), hnone]
      · have hother : a.1 ≠ m.1 := fun heq => hnew (List.mem_map.mpr ⟨m, hm, heq.symm⟩)
        rw [List.filter_cons_of_neg (by simpa using hother), ih hrest hm]

/-- The fields of an object whose members have different names, in their order. -/
theorem fields?_obj {members : List (String × Json)} {names : List String}
    (hnames : members.map (·.1) = names) (h : names.Nodup) :
    fields? names (.obj members) = some (members.map (some ·.2)) := by
  subst hnames
  rw [fields?, List.mapM_map]
  refine mapM_eq_some fun m hm => ?_
  simp only [Function.comp_apply, filter_name_eq h hm]

theorem optionalInt_inverse :
    Inverse (nullable int64?) (ofOption .int) fun o => ∀ n ∈ o, IsInt64 n :=
  int64_inverse.nullable fun _ => by simp

theorem optionalStr_inverse : Inverse (nullable str?) (ofOption .str) fun o => ∀ s ∈ o, True :=
  str_inverse.nullable fun _ => by simp

end Json

open Json (int64_inverse str_inverse bool_inverse named_inverse optionalInt_inverse
  optionalStr_inverse)

/-! The parts of rules. -/

/-- The numbers of a condition have 64 bits. -/
structure Condition.Fits (c : Condition) : Prop where
  id : Json.IsInt64 c.id
  metadataKey : ∀ n ∈ c.metadataKey, Json.IsInt64 n
  metadataValue : ∀ n ∈ c.metadataValue, Json.IsInt64 n

theorem Condition.json_inverse : Json.Inverse ofJson? toJson Fits where
  reads {c} h := by
    have hfields : c.toJson.fields? ["id", "kind", "value", "enabled", "case_insensitive",
        "inverted", "is_regex", "date_format", "metadata_key", "metadata_value"] = some _ :=
      Json.fields?_obj rfl (by decide)
    have hkind := (named_inverse ConditionKind.ofName?_name).required (a := c.kind) trivial
    simp only [ofJson?, hfields, Option.bind_eq_bind, Option.bind_some, List.map_cons, List.map_nil,
      hkind, int64_inverse.withDefault 0 h.id, str_inverse.withDefault "" trivial,
      bool_inverse.withDefault _ trivial, optionalStr_inverse.withDefault none fun _ _ => trivial,
      optionalInt_inverse.withDefault none h.metadataKey,
      optionalInt_inverse.withDefault none h.metadataValue]
    rfl
  fits {j c} h := by
    unfold ofJson? at h
    obtain ⟨fields, -, h⟩ := Option.bind_eq_some_iff.mp h
    split at h
    · simp only [Option.bind_eq_bind, Option.bind_eq_some_iff] at h
      obtain ⟨id, hid, kind, -, value, -, enabled, -, caseInsensitive, -, inverted, -, isRegex, -,
        dateFormat, -, key, hkey, metadataValue, hvalue, h⟩ := h
      cases h
      exact ⟨int64_inverse.fits_withDefault (by decide) hid,
        optionalInt_inverse.fits_withDefault (by simp) hkey,
        optionalInt_inverse.fits_withDefault (by simp) hvalue⟩
    · cases h

/-- The numbers of an action have 64 bits. -/
structure Action.Fits (a : Action) : Prop where
  id : Json.IsInt64 a.id
  metadataKey : ∀ n ∈ a.metadataKey, Json.IsInt64 n
  metadataValue : ∀ n ∈ a.metadataValue, Json.IsInt64 n

theorem Action.json_inverse : Json.Inverse ofJson? toJson Fits where
  reads {a} h := by
    have hfields : a.toJson.fields? ["id", "kind", "value", "enabled", "on_condition",
        "metadata_key", "metadata_value"] = some _ :=
      Json.fields?_obj rfl (by decide)
    have hkind := (named_inverse ActionKind.ofName?_name).required (a := a.kind) trivial
    simp only [ofJson?, hfields, Option.bind_eq_bind, Option.bind_some, List.map_cons, List.map_nil,
      hkind, int64_inverse.withDefault 0 h.id, str_inverse.withDefault "" trivial,
      bool_inverse.withDefault _ trivial, optionalInt_inverse.withDefault none h.metadataKey,
      optionalInt_inverse.withDefault none h.metadataValue]
    rfl
  fits {j a} h := by
    unfold ofJson? at h
    obtain ⟨fields, -, h⟩ := Option.bind_eq_some_iff.mp h
    split at h
    · simp only [Option.bind_eq_bind, Option.bind_eq_some_iff] at h
      obtain ⟨id, hid, kind, -, value, -, enabled, -, onCondition, -, key, hkey, metadataValue,
        hvalue, h⟩ := h
      cases h
      exact ⟨int64_inverse.fits_withDefault (by decide) hid,
        optionalInt_inverse.fits_withDefault (by simp) hkey,
        optionalInt_inverse.fits_withDefault (by simp) hvalue⟩
    · cases h

namespace Rule

/-- All numbers of a rule have 64 bits. -/
structure Fits (r : Rule) : Prop where
  id : Json.IsInt64 r.id
  userId : Json.IsInt64 r.userId
  order : Json.IsInt64 r.order
  conditions : ∀ c ∈ r.conditions, c.Fits
  actions : ∀ a ∈ r.actions, a.Fits

theorem json_inverse : Json.Inverse ofJson? toJson Fits where
  reads {r} h := by
    have hfields : r.toJson.fields? ["id", "user_id", "name", "description", "enabled", "order",
        "mode", "conditions", "actions"] = some _ :=
      Json.fields?_obj rfl (by decide)
    have hmode := (named_inverse RuleMode.ofName?_name).withDefault .all (a := r.mode) trivial
    simp only [ofJson?, hfields, Option.bind_eq_bind, Option.bind_some, List.map_cons, List.map_nil,
      hmode, int64_inverse.withDefault 0 h.id, int64_inverse.required h.userId,
      str_inverse.required trivial, str_inverse.withDefault "" trivial,
      bool_inverse.withDefault _ trivial, int64_inverse.required h.order,
      Condition.json_inverse.listOf.withDefault [] h.conditions,
      Action.json_inverse.listOf.withDefault [] h.actions]
    rfl
  fits {j r} h := by
    unfold ofJson? at h
    obtain ⟨fields, -, h⟩ := Option.bind_eq_some_iff.mp h
    split at h
    · simp only [Option.bind_eq_bind, Option.bind_eq_some_iff] at h
      obtain ⟨id, hid, userId, huser, name, -, description, -, enabled, -, order, horder, mode, -,
        conditions, hconditions, actions, hactions, h⟩ := h
      cases h
      exact ⟨int64_inverse.fits_withDefault (by decide) hid, int64_inverse.fits_required huser,
        int64_inverse.fits_required horder,
        Condition.json_inverse.listOf.fits_withDefault (by simp) hconditions,
        Action.json_inverse.listOf.fits_withDefault (by simp) hactions⟩
    · cases h

/-- What is written of the rule that a value gives. -/
def normalize? (j : Json) : Option Json := (ofJson? j).map toJson

/-- A rule is read back from its JSON value exactly if its numbers have 64 bits, as those of every
rule that was read have.  So whatever is written of a rule that was read is read as the same rule,
and is what is written of it again; and values have the same normal form exactly if they give the
same rule. -/
theorem json_normal_form :
    (∀ r : Rule, ofJson? r.toJson = some r ↔ r.Fits) ∧
    (∀ j r, ofJson? j = some r → r.Fits ∧ ofJson? r.toJson = some r) ∧
    ∀ j k, normalize? j = some k →
      normalize? k = some k ∧ ∀ j', normalize? j' = some k ↔ ofJson? j' = ofJson? j := by
  refine ⟨fun r => json_inverse.reads_iff,
    fun j r h => ⟨json_inverse.fits h, json_inverse.reads_again h⟩, fun j k h => ?_⟩
  obtain ⟨r, hread, rfl⟩ := Option.map_eq_some_iff.mp h
  have hagain := json_inverse.reads_again hread
  refine ⟨by rw [normalize?, hagain, Option.map_some], fun j' => ⟨fun h' => ?_, fun h' => ?_⟩⟩
  · obtain ⟨r', hread', heq⟩ := Option.map_eq_some_iff.mp h'
    have hagain' := json_inverse.reads_again hread'
    rw [hread', hread, ← hagain, ← hagain', heq]
  · rw [normalize?, h', hread, Option.map_some]

/-- A value that leaves out what it can, has a member that means nothing, names the kind of its
condition as an object, and writes its action as an array that breaks off. -/
def sparse : Json := .obj [("order", .int (-5)), ("colour", .real), ("name", .str "r"),
  ("user_id", .int 9223372036854775807),
  ("conditions", .arr [.obj [("kind", .obj [("name_is", .null)]), ("date_format", .str "")]]),
  ("actions", .arr [.arr [.int 3, .str "metadata_add", .str "", .bool false]])]

/-- It gives a rule, which is read back from what is written of it. -/
theorem json_normal_form_sparse : ∃ r, ofJson? sparse = some r ∧
    r.conditions = [{ kind := .text .name .equals, dateFormat := some "" }] ∧
    r.actions = [{ id := 3, kind := .addEntry, enabled := false }] ∧
    r.Fits ∧ ofJson? r.toJson = some r ∧ normalize? sparse = some r.toJson ∧
    normalize? r.toJson = some r.toJson := by
  have hread : ofJson? sparse = some {
      userId := 9223372036854775807, name := "r", order := -5
      conditions := [{ kind := .text .name .equals, dateFormat := some "" }]
      actions := [{ id := 3, kind := .addEntry, enabled := false }] } := by decide
  obtain ⟨-, hback, hnormal⟩ := json_normal_form
  obtain ⟨hfits, hagain⟩ := hback sparse _ hread
  have hwrite := congrArg (Option.map toJson) hread
  exact ⟨_, hread, rfl, rfl, hfits, hagain, hwrite, (hnormal sparse _ hwrite).1⟩

end Rule

end Docket
