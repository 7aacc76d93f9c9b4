import Docket.Proofs.Paths
import Docket.Storage.Basic
import Mathlib.Data.List.TakeWhile
import Mathlib.Data.String.Basic

/-!
The names that documents and contents have in a data directory.  An id, a hash and
an extension have no dot and no slash in them, so that the name of a file gives
back the id or the hash that it was made from.
-/

namespace Docket

/-! ### Lower-casing adds no punctuation -/

namespace Unicode

theorem mem_sortedPairs {pairs : List (Nat × Nat)} {p : Nat × Nat} :
    p ∈ sortedPairs pairs ↔ p ∈ pairs := by simp [sortedPairs]

/-- Pieces of text spell characters one piece after the other. -/
inductive Spells : List String → List Char → Prop
  | nil : Spells [] []
  | cons {cs rest : List Char} {pieces : List String} (h : Spells pieces rest) :
      Spells (String.ofList cs :: pieces) (cs ++ rest)

theorem Spells.toList_join {pieces : List String} {cs : List Char} (h : Spells pieces cs) :
    (String.join pieces).toList = cs := by
  induction h with
  | nil => rfl
  | cons h ih => simp [String.join_cons, ih]

/-- Every lower-case form in the table lies behind the punctuation of ASCII. -/
theorem lowerPairs_above : ∀ p ∈ lowerPairs, 0x60 < p.2 := by
  intro p hp
  -- The table is one long text in pieces, which the kernel reads piece by piece.
  rw [lowerPairs, mem_sortedPairs, numbers36, Spells.toList_join (by repeat' constructor)] at hp
  revert p
  decide +kernel

theorem mem_of_partner? {α : Type} {pairs : Array (Nat × α)} {code fuel lo hi : Nat} {v : α}
    (h : partner? pairs code fuel lo hi = some v) : ∃ key, (key, v) ∈ pairs := by
  induction fuel generalizing lo hi with
  | zero => cases h
  | succ fuel ih =>
      rw [partner?] at h
      split at h
      · dsimp only at h
        split at h
        · cases h
        · next key value hmid =>
            split at h
            · exact ih h
            · split at h
              · exact ih h
              · cases h
                exact ⟨key, Array.mem_of_getElem? hmid⟩
      · cases h

/-- A punctuation mark in a lower-case form was there before. -/
theorem eq_of_mem_lowerChar {c mark : Char} (hpos : 0 < mark.toNat) (hmark : mark.toNat ≤ 0x40)
    (h : mark ∈ lowerChar c) : mark = c := by
  unfold lowerChar at h
  split at h
  · rw [List.mem_singleton] at h
    unfold Char.toLower at h
    split at h
    · next hupper =>
        have hval : mark.toNat = (c.val + ('a'.val - 'A'.val)).toNat := congrArg Char.toNat h
        have hlow : 65 ≤ c.val.toNat := UInt32.le_iff_toNat_le.mp hupper.1
        have hhigh : c.val.toNat ≤ 90 := UInt32.le_iff_toNat_le.mp hupper.2
        have hshift : ('a'.val - 'A'.val).toNat = 32 := rfl
        rw [UInt32.toNat_add, hshift] at hval
        omega
    · exact h
  · split at h
    · simp only [List.mem_cons, List.not_mem_nil, or_false] at h
      rcases h with rfl | rfl
      · exact absurd hmark (by decide)
      · exact absurd hmark (by decide)
    · split at h
      · next lower hlower =>
          obtain ⟨key, hmem⟩ := mem_of_partner? hlower
          have habove := lowerPairs_above _ hmem
          have hval : mark.toNat = lower ∨ mark.toNat = 0 := by
            rw [List.mem_singleton.mp h, Char.ofNat]
            by_cases hvalid : lower.isValidChar
            · rw [dif_pos hvalid]
              exact .inl rfl
            · rw [dif_neg hvalid]
              exact .inr rfl
          dsimp only at habove
          omega
      · exact List.mem_singleton.mp h

end Unicode

namespace Text

theorem mem_of_mem_lowercase {s : String} {mark : Char} (hpos : 0 < mark.toNat)
    (hmark : mark.toNat ≤ 0x40) (h : mark ∈ (lowercase s).toList) : mark ∈ s.toList := by
  suffices ∀ before l, mark ∈ lowerAfter before l → mark ∈ l by
    rw [lowercase, String.toList_ofList] at h
    exact this [] _ h
  intro before l
  induction l generalizing before with
  | nil => exact id
  | cons c rest ih =>
      intro h
      rw [lowerAfter, List.mem_append] at h
      rcases h with h | h
      · unfold lowerBetween at h
        split at h
        · split at h
          · rw [List.mem_singleton.mp h] at hmark
            exact absurd hmark (by decide)
          · rw [List.mem_singleton.mp h] at hmark
            exact absurd hmark (by decide)
        · rw [Unicode.eq_of_mem_lowerChar hpos hmark h]
          exact List.mem_cons_self
      · exact List.mem_cons_of_mem c (ih _ h)

/-- A text without dots and slashes: part of a name, and nothing that separates names. -/
structure IsStem (s : String) : Prop where
  noDot : '.' ∉ s.toList
  noSlash : '/' ∉ s.toList

theorem notMem_splitChar {mark : Char} {l piece : List Char} (h : piece ∈ splitChar mark l) :
    mark ∉ piece := by
  induction l generalizing piece with
  | nil =>
      rw [splitChar, List.mem_singleton] at h
      simp [h]
  | cons c rest ih =>
      rw [splitChar] at h
      split at h
      · rcases List.mem_cons.mp h with rfl | h
        · simp
        · exact ih h
      · next hc =>
          split at h
          · next hsplit => exact absurd hsplit (splitChar_ne_nil mark rest)
          · next first others hsplit =>
              rw [hsplit] at ih
              rcases List.mem_cons.mp h with rfl | h
              · have hfirst := ih List.mem_cons_self
                simp [Ne.symm hc, hfirst]
              · exact ih (List.mem_cons_of_mem _ h)

theorem splitExtension_some {name ext : List Char} (h : (splitExtension name).2 = some ext) :
    '.' ∉ ext ∧ ext ⊆ name := by
  unfold splitExtension at h
  dsimp only at h
  split at h
  · split at h
    · cases h
    · cases h
      constructor
      · intro hdot
        have := List.mem_takeWhile_imp (List.mem_reverse.mp hdot)
        simp at this
      · intro c hc
        exact List.mem_reverse.mp
          ((List.takeWhile_prefix _).subset (List.mem_reverse.mp hc))
  · cases h

/-- The extension of a file name separates nothing. -/
theorem isStem_fileExtension {path ext : String} (h : fileExtension? path = some ext) :
    IsStem ext := by
  unfold fileExtension? at h
  obtain ⟨name, hname, h⟩ := Option.bind_eq_some_iff.mp h
  obtain ⟨behind, hbehind, rfl⟩ := Option.map_eq_some_iff.mp h
  obtain ⟨hdot, hsub⟩ := splitExtension_some hbehind
  have hslash : '/' ∉ name := by
    obtain ⟨hlast, -⟩ := Option.filter_eq_some_iff.mp hname
    have hmem := List.mem_of_getLast? hlast
    exact notMem_splitChar (List.mem_filter.mp hmem).1
  refine ⟨by simpa using hdot, ?_⟩
  rw [String.toList_ofList]
  exact fun hc => hslash (hsub hc)

end Text

theorem Document.isStem_extension {d : Document} {ext : String} (h : d.extension? = some ext) :
    Text.IsStem ext := by
  obtain ⟨raw, hraw, rfl⟩ := Option.map_eq_some_iff.mp h
  have hstem := Text.isStem_fileExtension hraw
  exact ⟨fun hc => hstem.noDot (Text.mem_of_mem_lowercase (by decide) (by decide) hc),
    fun hc => hstem.noSlash (Text.mem_of_mem_lowercase (by decide) (by decide) hc)⟩

/-! ### Names with extensions -/

section WithExtension

variable {stem : String} {ext : Option String}

/-- A name with an extension is its stem, or its stem before a dot and something. -/
theorem withExtension_cases (stem : String) (ext : Option String) :
    withExtension stem ext = stem ∨
      ∃ e, ext = some e ∧ e ≠ "" ∧
        (withExtension stem ext).toList = stem.toList ++ '.' :: e.toList := by
  unfold withExtension
  cases ext with
  | none => exact .inl rfl
  | some e =>
      by_cases he : e = ""
      · exact .inl (by simp [he])
      · exact .inr ⟨e, rfl, he, by simp [he]⟩

/-- What stands before the first dot of a name is its stem. -/
theorem takeWhile_withExtension (ext : Option String) (hstem : '.' ∉ stem.toList) :
    (withExtension stem ext).toList.takeWhile (· ≠ '.') = stem.toList := by
  have hall : ∀ c ∈ stem.toList, decide (c ≠ '.') = true := by
    intro c hc
    rw [decide_eq_true_eq]
    rintro rfl
    exact hstem hc
  rcases withExtension_cases stem ext with h | ⟨e, -, -, h⟩
  · rw [h, List.takeWhile_eq_self_iff.mpr hall]
  · rw [h, List.takeWhile_append_of_pos hall]
    simp

theorem withExtension_stem_injective {stem' : String} {ext' : Option String}
    (hstem : '.' ∉ stem.toList) (hstem' : '.' ∉ stem'.toList)
    (h : withExtension stem ext = withExtension stem' ext') : stem = stem' := by
  apply String.toList_inj.mp
  rw [← takeWhile_withExtension ext hstem, h, takeWhile_withExtension ext' hstem']

theorem isName_withExtension (hstem : Text.IsStem stem)
    (hext : ∀ e, ext = some e → Text.IsStem e) (hne : withExtension stem ext ≠ "") :
    Text.IsName (withExtension stem ext) := by
  rcases withExtension_cases stem ext with h | ⟨e, he, hempty, h⟩
  · rw [h] at hne ⊢
    refine ⟨hstem.noSlash, ?_, ?_⟩
    · simp only [Text.isIdlePiece, Bool.or_eq_false_iff, List.isEmpty_eq_false_iff,
        decide_eq_false_iff_not]
      refine ⟨by simpa using hne, fun hdot => hstem.noDot ?_⟩
      simp [hdot]
    · rintro rfl
      exact hstem.noDot (by decide)
  · have hstem' := hext e he
    have hlist : e.toList ≠ [] := by simpa using hempty
    refine ⟨?_, ?_, fun hup => ?_⟩
    · simp [h, hstem.noSlash, hstem'.noSlash]
    · simp [Text.isIdlePiece, h, List.append_eq_cons_iff, hlist]
    · have hlen : stem.toList ++ '.' :: e.toList = ['.', '.'] := by
        rw [← h, hup]
        rfl
      rw [List.append_eq_cons_iff] at hlen
      rcases hlen with ⟨-, hrest⟩ | ⟨rest, hs, -⟩
      · simp only [List.cons.injEq, true_and] at hrest
        exact hstem'.noDot (by simp [hrest])
      · exact hstem.noDot (by simp [hs])

/-- The name of a file gives back the stem that it was made with. -/
theorem fileStem?_withExtension (hstem : Text.IsStem stem) (hempty : stem ≠ "")
    (hext : ∀ e, ext = some e → Text.IsStem e) :
    Text.fileStem? (withExtension stem ext) = some stem := by
  have hlist : stem.toList ≠ [] := by simpa using hempty
  have hne : withExtension stem ext ≠ "" := by
    rcases withExtension_cases stem ext with h | ⟨e, -, -, h⟩
    · rwa [h]
    · intro hnil
      simp [hnil] at h
  have hall : ∀ l : List Char, '.' ∉ l → ∀ c ∈ l.reverse, decide (c ≠ '.') = true := by
    intro l hl c hc
    rw [decide_eq_true_eq]
    rintro rfl
    exact hl (List.mem_reverse.mp hc)
  rw [Text.fileStem?, (isName_withExtension hstem hext hne).fileNameChars?_eq]
  rcases withExtension_cases stem ext with h | ⟨e, he, -, h⟩
  · rw [h]
    have hdrop : stem.toList.reverse.dropWhile (· ≠ '.') = [] :=
      List.dropWhile_eq_nil_iff.mpr (hall _ hstem.noDot)
    simp only [Text.splitExtension, hdrop, Option.map_some, String.ofList_toList]
  · have hrev : (withExtension stem ext).toList.reverse =
        e.toList.reverse ++ '.' :: stem.toList.reverse := by simp [h]
    have hdrop : (withExtension stem ext).toList.reverse.dropWhile (· ≠ '.') =
        '.' :: stem.toList.reverse := by
      rw [hrev, List.dropWhile_append_of_pos (hall _ (hext e he).noDot)]
      simp
    have hnil : stem.toList.reverse.isEmpty = false := by simpa using hempty
    simp only [Text.splitExtension, hdrop, hnil, Bool.false_eq_true, if_false,
      List.reverse_reverse, Option.map_some, String.ofList_toList]

end WithExtension

/-! ### Hashes -/

/-- Whether a character is a hexadecimal digit, as a hash has them. -/
theorem isContentHash_iff {hash : String} :
    isContentHash hash = true ↔ 4 ≤ hash.toList.length ∧ ∀ c ∈ hash.toList,
      (c.isDigit || ('a' ≤ c && c ≤ 'f') || ('A' ≤ c && c ≤ 'F')) = true := by
  simp [isContentHash, List.all_eq_true]

theorem length_hexDigest (content : ByteArray) :
    (Sha256.hexDigest content).toList.length = 64 := by
  have hword : ∀ w : UInt32, (Sha256.hexWord w).length = 8 := fun w => by
    simp [Sha256.hexWord]
  rw [Sha256.hexDigest, String.toList_ofList]
  simp only [List.flatMap_cons, List.length_append, hword, List.flatMap_nil, List.length_nil]

theorem isContentHash_hexDigest (content : ByteArray) :
    isContentHash (Sha256.hexDigest content) = true := by
  have hdigit : ∀ n < 16, ((Text.hexDigit n).isDigit ||
      ('a' ≤ Text.hexDigit n && Text.hexDigit n ≤ 'f') ||
      ('A' ≤ Text.hexDigit n && Text.hexDigit n ≤ 'F')) = true := by decide
  rw [isContentHash_iff]
  constructor
  · rw [length_hexDigest]
    decide
  · intro c hc
    rw [Sha256.hexDigest, String.toList_ofList] at hc
    obtain ⟨w, -, hc⟩ := List.mem_flatMap.mp hc
    obtain ⟨shift, -, rfl⟩ := List.mem_map.mp hc
    apply hdigit
    rw [UInt32.toNat_and]
    exact Nat.lt_succ_of_le Nat.and_le_right

section Hash

variable {hash : String}

theorem isContentHash_ne_empty (h : isContentHash hash = true) : hash ≠ "" := by
  rintro rfl
  have := (isContentHash_iff.mp h).1
  simp at this

/-- A mark that is no hexadecimal digit is in no hash. -/
theorem notMem_hash {mark : Char} (h : isContentHash hash = true)
    (hmark : (mark.isDigit || ('a' ≤ mark && mark ≤ 'f') || ('A' ≤ mark && mark ≤ 'F')) = false) :
    mark ∉ hash.toList := by
  intro hmem
  rw [(isContentHash_iff.mp h).2 mark hmem] at hmark
  cases hmark

theorem isStem_hash (h : isContentHash hash = true) : Text.IsStem hash :=
  ⟨notMem_hash h (by decide), notMem_hash h (by decide)⟩

/-- A digit takes one byte. -/
theorem utf8ByteSize_of_digits {digits : List Char} (h : isContentHash hash = true)
    (hsub : digits ⊆ hash.toList) : (String.ofList digits).utf8ByteSize = digits.length := by
  rw [String.utf8ByteSize_ofList]
  induction digits with
  | nil => rfl
  | cons c rest ih =>
      have hone : c.utf8Size = 1 := by
        have hdigit := (isContentHash_iff.mp h).2 c (hsub List.mem_cons_self)
        rw [Char.utf8Size_eq_one_iff]
        simp only [Char.isDigit, Bool.or_eq_true, Bool.and_eq_true, decide_eq_true_eq,
          Char.le_def, UInt32.le_iff_toNat_le, ge_iff_le] at hdigit ⊢
        have h9 : '9'.val.toNat = 57 := rfl
        have hf : 'f'.val.toNat = 102 := rfl
        have hF : 'F'.val.toNat = 70 := rfl
        have hmax : (127 : UInt32).toNat = 127 := rfl
        omega
      rw [String.utf8Len_cons, ih fun x hx => hsub (List.mem_cons_of_mem c hx), hone,
        List.length_cons]

/-- A piece of a hash names a directory. -/
theorem isName_of_digits {digits : List Char} (h : isContentHash hash = true)
    (hsub : digits ⊆ hash.toList) (hne : digits ≠ []) : Text.IsName (String.ofList digits) := by
  have hstem := isStem_hash h
  have hdot : '.' ∉ digits := fun hc => hstem.noDot (hsub hc)
  refine ⟨?_, ?_, ?_⟩
  · rw [String.toList_ofList]
    exact fun hc => hstem.noSlash (hsub hc)
  · simp only [Text.isIdlePiece, String.toList_ofList, Bool.or_eq_false_iff,
      List.isEmpty_eq_false_iff, decide_eq_false_iff_not]
    refine ⟨hne, ?_⟩
    rintro rfl
    exact hdot (by decide)
  · intro hup
    rw [← String.toList_inj, String.toList_ofList] at hup
    exact hdot (hup ▸ by decide)

end Hash

namespace Storage

/-- The names that lead from the root to where an upload waits. -/
def incomingNames (d : Document) : List String :=
  ["incoming"] ++ [withExtension d.id d.extension?]

/-- The names that lead from the root to the directory of a content. -/
def shelfNames (hash : String) : List String :=
  ["documents", (shelfOf hash).1, (shelfOf hash).2]

/-- The names that lead from the root to a content. -/
def contentNames (hash : String) (ext : Option String) : List String :=
  shelfNames hash ++ [withExtension hash ext]

theorem documentPath_waiting (s : Storage) {d : Document} (h : d.hash = "") :
    s.documentPath d = .ok (Text.along s.root (incomingNames d)) := by
  simp [documentPath, documentPath?, h, incomingPath, incomingNames, Text.along]

theorem contentPath_eq (s : Storage) {hash : String} (h : isContentHash hash = true)
    (ext : Option String) :
    s.contentPath hash ext = .ok (Text.along s.root (contentNames hash ext)) := by
  simp [contentPath, contentPath?, h, shelved, contentNames, shelfNames, Text.along]

theorem documentPath_kept (s : Storage) {d : Document} (h : isContentHash d.hash = true) :
    s.documentPath d = .ok (Text.along s.root (contentNames d.hash d.extension?)) := by
  have hne : d.hash.isEmpty = false := by simpa using isContentHash_ne_empty h
  rw [← contentPath_eq s h]
  simp [documentPath, documentPath?, hne, contentPath, h, contentPath?]

/-- A path of a document leads to where it waits, or to its content. -/
theorem documentPath_cases {s : Storage} {d : Document} {path : String}
    (h : s.documentPath d = .ok path) : d.hash = "" ∨ isContentHash d.hash = true := by
  by_cases hempty : d.hash = ""
  · exact .inl hempty
  · right
    have hne : d.hash.isEmpty = false := by simpa using hempty
    by_contra hhash
    simp [documentPath, documentPath?, hne, contentPath?, hhash] at h

section Names

variable {hash : String} {ext : Option String}

theorem isName_shelfNames (h : isContentHash hash = true) :
    ∀ name ∈ shelfNames hash, Text.IsName name := by
  have hlen := (isContentHash_iff.mp h).1
  have hdocuments : Text.IsName "documents" := ⟨by decide, by decide, by decide⟩
  have hfirst : Text.IsName (shelfOf hash).1 :=
    isName_of_digits h (List.take_subset _ _) (by
      rw [← List.length_pos_iff, List.length_take]
      omega)
  have hsecond : Text.IsName (shelfOf hash).2 :=
    isName_of_digits h
      (fun _ hc => List.drop_subset _ _ (List.take_subset _ _ hc)) (by
        rw [← List.length_pos_iff, List.length_take, List.length_drop]
        omega)
  intro name hname
  simp only [shelfNames, List.mem_cons, List.not_mem_nil, or_false] at hname
  rcases hname with rfl | rfl | rfl
  · exact hdocuments
  · exact hfirst
  · exact hsecond

theorem isName_contentNames (h : isContentHash hash = true)
    (hext : ∀ e, ext = some e → Text.IsStem e) :
    ∀ name ∈ contentNames hash ext, Text.IsName name := by
  intro name hname
  rcases List.mem_append.mp hname with hname | hname
  · exact isName_shelfNames h name hname
  · rw [List.mem_singleton.mp hname]
    refine isName_withExtension (isStem_hash h) hext ?_
    rcases withExtension_cases hash ext with heq | ⟨e, -, -, heq⟩
    · rw [heq]
      exact isContentHash_ne_empty h
    · intro hnil
      simp [hnil] at heq

/-- A directory can hold the names that lead to a content without an extension. -/
theorem contentNames_fit (h : isContentHash hash = true)
    (hlen : hash.toList.length ≤ FileTree.maxNameSize) :
    ∀ name ∈ contentNames hash none,
      '\x00' ∉ name.toList ∧ name.utf8ByteSize ≤ FileTree.maxNameSize := by
  have hnul : '\x00' ∉ hash.toList := notMem_hash h (by decide)
  have hpiece : ∀ digits ⊆ hash.toList, '\x00' ∉ (String.ofList digits).toList ∧
      (String.ofList digits).utf8ByteSize = digits.length := fun digits hsub =>
    ⟨fun hmem => hnul (hsub (by simpa using hmem)), utf8ByteSize_of_digits h hsub⟩
  have htake : hash.toList.take 2 ⊆ hash.toList := List.take_subset _ _
  have hdrop : (hash.toList.drop 2).take 2 ⊆ hash.toList :=
    fun _ hc => List.drop_subset _ _ (List.take_subset _ _ hc)
  have hshort : ∀ l : List Char, (l.take 2).length ≤ FileTree.maxNameSize := fun l =>
    le_trans (List.length_take_le 2 l) (by decide)
  intro name hname
  simp only [contentNames, shelfNames, shelfOf, withExtension, List.cons_append,
    List.nil_append, List.mem_cons, List.not_mem_nil, or_false] at hname
  rcases hname with rfl | rfl | rfl | rfl
  · decide
  · exact ⟨(hpiece _ htake).1, (hpiece _ htake).2 ▸ hshort _⟩
  · exact ⟨(hpiece _ hdrop).1, (hpiece _ hdrop).2 ▸ hshort _⟩
  · have hwhole := hpiece _ (List.Subset.refl name.toList)
    rw [String.ofList_toList] at hwhole
    exact ⟨hwhole.1, hwhole.2 ▸ hlen⟩

theorem isName_incomingNames {d : Document} (hid : Text.IsStem d.id)
    (hne : withExtension d.id d.extension? ≠ "") :
    ∀ name ∈ incomingNames d, Text.IsName name := by
  intro name hname
  rcases List.mem_append.mp hname with hname | hname
  · rw [List.mem_singleton.mp hname]
    exact ⟨by decide, by decide, by decide⟩
  · rw [List.mem_singleton.mp hname]
    exact isName_withExtension hid (fun e he => Document.isStem_extension he) hne

/-- Different hashes have different places. -/
theorem contentNames_injective {hash' : String} {ext' : Option String}
    (h : isContentHash hash = true) (h' : isContentHash hash' = true)
    (heq : contentNames hash ext = contentNames hash' ext') : hash = hash' :=
  withExtension_stem_injective (isStem_hash h).noDot (isStem_hash h').noDot
    (List.singleton_inj.mp (List.append_inj' heq rfl).2)

theorem incomingNames_injective {d d' : Document} (h : Text.IsStem d.id) (h' : Text.IsStem d'.id)
    (heq : incomingNames d = incomingNames d') : d.id = d'.id :=
  withExtension_stem_injective h.noDot h'.noDot
    (List.singleton_inj.mp (List.append_inj' heq rfl).2)

theorem incomingNames_ne_contentNames (d : Document) (hash : String) (ext : Option String) :
    incomingNames d ≠ contentNames hash ext := by
  intro h
  simp [incomingNames, contentNames, shelfNames] at h

end Names

end Storage

end Docket
