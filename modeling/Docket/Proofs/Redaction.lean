import Docket.Text.Redact
import Mathlib.Data.List.Infix
import Mathlib.Data.List.TakeWhile
import Mathlib.Data.String.Basic

/-!
Addresses without their credentials.  The scheme of an address ends with the first `://`, the
authority behind it with the next slash, and the credentials with the last `@` of the authority.
Whatever they are, the same is left of the address, and nothing else of it is touched.
-/

namespace Docket.Text

variable {part url front rest s : List Char} {c mark : Char}

/-! The first occurrence of a part. -/

/-- A text ends with a part, and has none before its end. -/
structure EndsOnce (part front : List Char) : Prop where
  ends : part <:+ front
  once : ¬ part <:+: front.dropLast

theorem endsOnce_self (hpart : part ≠ []) : EndsOnce part part := by
  refine ⟨List.suffix_rfl, fun hinfix => ?_⟩
  have hlength := hinfix.length_le
  have hpos := List.length_pos_iff.mpr hpart
  rw [List.length_dropLast] at hlength
  omega

/-- A text that starts with the part as well is no longer than it. -/
theorem EndsOnce.eq_of_prefix (h : EndsOnce part front) (hstarts : part <+: front ++ rest) :
    front = part := by
  by_contra hne
  have hshorter : part.length < front.length :=
    lt_of_le_of_ne h.ends.length_le fun heq => hne (h.ends.eq_of_length heq).symm
  refine h.once (List.IsPrefix.isInfix ?_)
  refine List.prefix_of_prefix_length_le hstarts
    ((List.dropLast_prefix front).trans (List.prefix_append front rest)) ?_
  rw [List.length_dropLast]
  omega

/-- A character in front of which the part does not start changes nothing. -/
theorem endsOnce_cons_iff (hnot : ¬ part <+: c :: front) :
    EndsOnce part (c :: front) ↔ EndsOnce part front := by
  have hends : part <:+ c :: front ↔ part <:+ front := by
    rw [List.suffix_cons_iff, or_iff_right]
    rintro rfl
    exact hnot List.prefix_rfl
  have honce : part <:+ front → (part <:+: (c :: front).dropLast ↔ part <:+: front.dropLast) := by
    intro h
    have hfront : front ≠ [] := by
      rintro rfl
      exact hnot (List.suffix_nil.mp h ▸ List.nil_prefix)
    rw [List.dropLast_cons_of_ne_nil hfront, List.infix_cons_iff, or_iff_right]
    intro hstarts
    exact hnot (hstarts.trans ((List.prefix_cons_inj c).mpr (List.dropLast_prefix front)))
  constructor
  · exact fun ⟨h, hno⟩ => ⟨hends.mp h, mt (honce (hends.mp h)).mpr hno⟩
  · exact fun ⟨h, hno⟩ => ⟨hends.mpr h, mt (honce h).mp hno⟩

/-- A text is split behind the shortest of its beginnings that end with the part. -/
theorem splitBehind?_eq_some_iff (hpart : part ≠ []) :
    splitBehind? part url = some (front, rest) ↔ url = front ++ rest ∧ EndsOnce part front := by
  induction url generalizing front with
  | nil =>
      simp only [splitBehind?, reduceCtorEq, false_iff]
      rintro ⟨hurl, h⟩
      obtain ⟨rfl, -⟩ := List.append_eq_nil_iff.mp hurl.symm
      exact hpart (List.suffix_nil.mp h.ends)
  | cons c tail ih =>
      rw [splitBehind?]
      by_cases hstarts : part <+: c :: tail
      · rw [if_pos (List.isPrefixOf_iff_prefix.mpr hstarts), Option.some.injEq, Prod.mk.injEq]
        constructor
        · rintro ⟨rfl, rfl⟩
          exact ⟨List.prefix_append_drop hstarts, endsOnce_self hpart⟩
        · rintro ⟨hurl, h⟩
          rw [hurl] at hstarts ⊢
          obtain rfl := h.eq_of_prefix hstarts
          exact ⟨rfl, List.drop_left⟩
      · rw [if_neg (mt List.isPrefixOf_iff_prefix.mp hstarts), Option.map_eq_some_iff]
        constructor
        · rintro ⟨⟨before, after⟩, hsplit, heq⟩
          cases heq
          obtain ⟨rfl, h⟩ := ih.mp hsplit
          refine ⟨rfl, (endsOnce_cons_iff fun h => hstarts ?_).mpr h⟩
          exact h.trans (List.prefix_append (c :: before) rest)
        · rintro ⟨hurl, h⟩
          cases front with
          | nil => exact absurd (List.suffix_nil.mp h.ends) hpart
          | cons a before =>
              obtain ⟨rfl, rfl⟩ := List.cons.inj hurl
              refine ⟨(before, rest), ih.mpr ⟨rfl, ?_⟩, rfl⟩
              refine (endsOnce_cons_iff fun h => hstarts ?_).mp h
              exact h.trans (List.prefix_append (c :: before) rest)

theorem splitBehind?_eq_none (h : ¬ part <:+: url) : splitBehind? part url = none := by
  induction url with
  | nil => rfl
  | cons c tail ih =>
      rw [List.infix_cons_iff, not_or] at h
      rw [splitBehind?, if_neg (mt List.isPrefixOf_iff_prefix.mp h.1), ih h.2, Option.map_none]

/-! The last occurrence of a character. -/

theorem behindLast?_eq_none_iff : behindLast? mark s = none ↔ mark ∉ s := by
  induction s with
  | nil => simp [behindLast?]
  | cons c rest ih =>
      rw [behindLast?, Option.or_eq_none_iff, ih, List.mem_cons, not_or, and_comm,
        eq_comm (a := mark)]
      simp

theorem behindLast?_eq_some_iff :
    behindLast? mark s = some rest ↔ ∃ before, s = before ++ mark :: rest ∧ mark ∉ rest := by
  induction s with
  | nil => simp [behindLast?]
  | cons c tail ih =>
      rw [behindLast?, Option.or_eq_some_iff, ih, behindLast?_eq_none_iff]
      constructor
      · rintro (⟨before, rfl, hlast⟩ | ⟨hlast, hhere⟩)
        · exact ⟨c :: before, rfl, hlast⟩
        · obtain ⟨rfl, rfl⟩ : c = mark ∧ tail = rest := by simpa using hhere
          exact ⟨[], rfl, hlast⟩
      · rintro ⟨before, hs, hlast⟩
        cases before with
        | nil =>
            obtain ⟨rfl, rfl⟩ := List.cons.inj hs
            exact .inr ⟨hlast, if_pos rfl⟩
        | cons a before =>
            obtain ⟨rfl, rfl⟩ := List.cons.inj hs
            exact .inl ⟨before, rfl, hlast⟩

/-! What is left of an address. -/

/-- The mark at the end of a scheme. -/
def schemeMark : List Char := [':', '/', '/']

/-- What may follow an authority: nothing, or a text that starts with a slash. -/
def FollowsAuthority (path : List Char) : Prop := ∀ c ∈ path.head?, c = '/'

variable {scheme authority user host path : List Char}

/-- The mark does not overlap itself, so a text without it does not end up with two of them. -/
theorem endsOnce_scheme (h : ¬ schemeMark <:+: s) : EndsOnce schemeMark (s ++ schemeMark) := by
  induction s with
  | nil => exact endsOnce_self (List.cons_ne_nil _ _)
  | cons c tail ih =>
      rw [List.infix_cons_iff, not_or] at h
      refine (endsOnce_cons_iff fun hstarts => ?_).mpr (ih h.2)
      rcases tail with _ | ⟨d, _ | ⟨e, tail⟩⟩
      · simp [schemeMark] at hstarts
      · simp [schemeMark] at hstarts
      · refine h.1 ?_
        simpa [schemeMark] using hstarts

theorem authority_ends (hauthority : '/' ∉ authority) (hpath : FollowsAuthority path) :
    (authority ++ path).takeWhile (· ≠ '/') = authority ∧
      (authority ++ path).dropWhile (· ≠ '/') = path := by
  have hbefore : ∀ c ∈ authority, decide (c ≠ '/') = true := by
    rintro c hc
    refine decide_eq_true ?_
    rintro rfl
    exact hauthority hc
  rw [List.takeWhile_append_of_pos hbefore, List.dropWhile_append_of_pos hbefore]
  cases path with
  | nil => simp
  | cons c path => simp [hpath c rfl]

/-- Behind a scheme everything up to the last `@` of the authority is hidden. -/
theorem redactUrlChars_of_credentials (hscheme : EndsOnce schemeMark scheme) (huser : '/' ∉ user)
    (hhost : '/' ∉ host) (hlast : '@' ∉ host) (hpath : FollowsAuthority path) :
    redactUrlChars (scheme ++ (user ++ '@' :: host ++ path)) =
      scheme ++ ['*', '*', '*', '*', '@'] ++ host ++ path := by
  have hsplit : splitBehind? schemeMark (scheme ++ (user ++ '@' :: host ++ path)) =
      some (scheme, user ++ '@' :: host ++ path) :=
    (splitBehind?_eq_some_iff (List.cons_ne_nil _ _)).mpr ⟨rfl, hscheme⟩
  have hauthority : '/' ∉ user ++ '@' :: host := by simp [huser, hhost]
  obtain ⟨htake, hdrop⟩ := authority_ends hauthority hpath
  have hbehind : behindLast? '@' (user ++ '@' :: host) = some host :=
    behindLast?_eq_some_iff.mpr ⟨user, rfl, hlast⟩
  rw [schemeMark] at hsplit
  simp only [redactUrlChars, hsplit, htake, hdrop, hbehind]

/-- An authority without an `@` leaves the address as it is. -/
theorem redactUrlChars_of_none (hscheme : EndsOnce schemeMark scheme) (hhost : '/' ∉ host)
    (hnone : '@' ∉ host) (hpath : FollowsAuthority path) :
    redactUrlChars (scheme ++ (host ++ path)) = scheme ++ (host ++ path) := by
  have hsplit : splitBehind? schemeMark (scheme ++ (host ++ path)) = some (scheme, host ++ path) :=
    (splitBehind?_eq_some_iff (List.cons_ne_nil _ _)).mpr ⟨rfl, hscheme⟩
  have hbehind : behindLast? '@' host = none := behindLast?_eq_none_iff.mpr hnone
  rw [schemeMark] at hsplit
  simp only [redactUrlChars, hsplit, (authority_ends hhost hpath).1, hbehind]

/-- Every address is one of the two, or has no scheme. -/
theorem redactUrlChars_cases (url : List Char) :
    redactUrlChars url = url ∨ ∃ scheme user host path, EndsOnce schemeMark scheme ∧
      '/' ∉ user ∧ '/' ∉ host ∧ '@' ∉ host ∧ FollowsAuthority path ∧
      url = scheme ++ (user ++ '@' :: host ++ path) := by
  unfold redactUrlChars
  split
  · exact .inl rfl
  · next scheme rest hsplit =>
      obtain ⟨rfl, hscheme⟩ := (splitBehind?_eq_some_iff (List.cons_ne_nil _ _)).mp hsplit
      dsimp only
      split
      · exact .inl rfl
      · next host hbehind =>
          obtain ⟨user, hauthority, hlast⟩ := behindLast?_eq_some_iff.mp hbehind
          have hslash : '/' ∉ rest.takeWhile (· ≠ '/') := fun h => by
            simpa using List.mem_takeWhile_imp h
          rw [hauthority, List.mem_append, List.mem_cons, not_or, not_or] at hslash
          refine .inr ⟨scheme, user, host, rest.dropWhile (· ≠ '/'), hscheme, hslash.1,
            hslash.2.2, hlast, fun c hc => ?_, ?_⟩
          · have hfalse := List.head?_dropWhile_not (· ≠ '/') rest
            rw [Option.mem_def.mp hc] at hfalse
            simpa using hfalse
          · rw [← hauthority, List.takeWhile_append_dropWhile]

theorem redactUrlChars_idempotent (url : List Char) :
    redactUrlChars (redactUrlChars url) = redactUrlChars url := by
  rcases redactUrlChars_cases url with h | ⟨scheme, user, host, path, hscheme, huser, hhost, hlast,
    hpath, rfl⟩
  · rw [h, h]
  · have hstars : '/' ∉ ['*', '*', '*', '*'] := by decide
    rw [redactUrlChars_of_credentials hscheme huser hhost hlast hpath]
    have hagain := redactUrlChars_of_credentials hscheme hstars hhost hlast hpath
    simpa using hagain

/-! Addresses as texts. -/

theorem redactUrl_append {s user host path : String} (hs : ¬ schemeMark <:+: s.toList)
    (huser : '/' ∉ user.toList) (hhost : '/' ∉ host.toList) (hlast : '@' ∉ host.toList)
    (hpath : FollowsAuthority path.toList) :
    redactUrl (s ++ "://" ++ user ++ "@" ++ host ++ path) = s ++ "://****@" ++ host ++ path := by
  have h := redactUrlChars_of_credentials (endsOnce_scheme hs) huser hhost hlast hpath
  apply String.toList_inj.mp
  rw [redactUrl, String.toList_ofList]
  simpa [schemeMark] using h

theorem redactUrl_of_none {s host path : String} (hs : ¬ schemeMark <:+: s.toList)
    (hhost : '/' ∉ host.toList) (hnone : '@' ∉ host.toList)
    (hpath : FollowsAuthority path.toList) :
    redactUrl (s ++ "://" ++ host ++ path) = s ++ "://" ++ host ++ path := by
  have h := redactUrlChars_of_none (endsOnce_scheme hs) hhost hnone hpath
  apply String.toList_inj.mp
  rw [redactUrl, String.toList_ofList]
  simpa [schemeMark] using h

theorem redactUrl_idempotent (url : String) : redactUrl (redactUrl url) = redactUrl url := by
  rw [redactUrl, redactUrl, String.toList_ofList, redactUrlChars_idempotent]

theorem redactUrl_of_no_scheme {url : String} (h : ¬ schemeMark <:+: url.toList) :
    redactUrl url = url := by
  have hnone : splitBehind? [':', '/', '/'] url.toList = none := splitBehind?_eq_none h
  rw [redactUrl, redactUrlChars, hnone, String.ofList_toList]

/-- The credentials of an address leave no trace: two addresses that differ in nothing else are
redacted alike, with the scheme, the host and all that follows as they were.  An address without
credentials is left as it is, whatever follows its authority, and so is a text that has no scheme
at all; and to redact twice is to redact once. -/
theorem redactUrl_hides_credentials {s host path : String} (hs : ¬ schemeMark <:+: s.toList)
    (hhost : '/' ∉ host.toList) (hlast : '@' ∉ host.toList)
    (hpath : FollowsAuthority path.toList) :
    (∀ user user' : String, '/' ∉ user.toList → '/' ∉ user'.toList →
      redactUrl (s ++ "://" ++ user ++ "@" ++ host ++ path) =
        redactUrl (s ++ "://" ++ user' ++ "@" ++ host ++ path) ∧
      redactUrl (s ++ "://" ++ user ++ "@" ++ host ++ path) =
        s ++ "://****@" ++ host ++ path) ∧
    redactUrl (s ++ "://" ++ host ++ path) = s ++ "://" ++ host ++ path ∧
    redactUrl s = s ∧
    ∀ url, redactUrl (redactUrl url) = redactUrl url := by
  refine ⟨fun user user' huser huser' => ?_, redactUrl_of_none hs hhost hlast hpath,
    redactUrl_of_no_scheme hs, redactUrl_idempotent⟩
  rw [redactUrl_append hs huser hhost hlast hpath, redactUrl_append hs huser' hhost hlast hpath]
  exact ⟨rfl, rfl⟩

/-- Credentials with further marks in them, before a path that has more of all marks. -/
theorem redactUrl_hides_credentials_nested :
    ¬ schemeMark <:+: "https".toList ∧ '/' ∉ "search.local:7700".toList ∧
    '@' ∉ "search.local:7700".toList ∧ FollowsAuthority "/x?u=http://c@d".toList ∧
    redactUrl ("https" ++ "://" ++ "admin:a@b@" ++ "@" ++ "search.local:7700" ++
        "/x?u=http://c@d") =
      "https" ++ "://****@" ++ "search.local:7700" ++ "/x?u=http://c@d" ∧
    redactUrl ("https" ++ "://" ++ "k:::" ++ "@" ++ "search.local:7700" ++ "/x?u=http://c@d") =
      "https" ++ "://****@" ++ "search.local:7700" ++ "/x?u=http://c@d" := by
  have hscheme : ¬ schemeMark <:+: "https".toList := by decide
  have hhost : '/' ∉ "search.local:7700".toList := by decide
  have hlast : '@' ∉ "search.local:7700".toList := by decide
  have hpath : FollowsAuthority "/x?u=http://c@d".toList := fun c hc => (Option.some.inj hc).symm
  obtain ⟨hsame, -⟩ := redactUrl_hides_credentials hscheme hhost hlast hpath
  obtain ⟨halike, hredacted⟩ := hsame "admin:a@b@" "k:::" (by decide) (by decide)
  exact ⟨hscheme, hhost, hlast, hpath, hredacted, halike ▸ hredacted⟩

end Docket.Text
