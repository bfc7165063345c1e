import VoxServer.Net.HttpServer

/-! # The tests on paths

Each test that the routes are found by holds of the paths of one form, and the forms that
start or end differently exclude each other.
-/

namespace VoxServer.Http

variable {pre suf path rest base : String}

section Forms

theorem after?_eq_some : after? pre path = some rest ↔ path = pre ++ rest := by
  unfold after?
  rw [Option.ite_none_right_eq_some, List.isPrefixOf_iff_prefix]
  constructor
  · rintro ⟨⟨l, hl⟩, h⟩
    cases h
    rw [← String.toList_inj]
    simp [← hl]
  · rintro rfl
    simp

@[simp] theorem after?_append (pre rest : String) : after? pre (pre ++ rest) = some rest :=
  after?_eq_some.mpr rfl

theorem after?_append_left (p pre rest : String) :
    after? (p ++ pre) (p ++ rest) = after? pre rest := by
  apply Option.ext
  intro x
  rw [after?_eq_some, after?_eq_some, String.append_assoc, String.append_right_inj]

theorem before?_eq_some : before? suf path = some base ↔ path = base ++ suf := by
  unfold before?
  rw [Option.ite_none_right_eq_some, List.isSuffixOf_iff_suffix]
  constructor
  · rintro ⟨⟨l, hl⟩, h⟩
    cases h
    rw [← String.toList_inj]
    simp [← hl]
  · rintro rfl
    simp

theorem pathOnly_of_not_mem (h : '?' ∉ path.toList) : pathOnly path = path := by
  rw [pathOnly, Text.splitAtFirst_eq_none.mpr h]

theorem pathOnly_append (h : '?' ∉ pre.toList) (rest : String) :
    pathOnly (pre ++ rest) = pre ++ pathOnly rest := by
  rw [pathOnly, String.toList_append, Text.splitAtFirst_append_left h, pathOnly]
  cases Text.splitAtFirst '?' rest.toList with
  | none => rfl
  | some p => simp

theorem pathOnly_append_of_mem (h : '?' ∈ pre.toList) (rest : String) :
    pathOnly (pre ++ rest) = pathOnly pre := by
  cases hs : Text.splitAtFirst '?' pre.toList with
  | none => exact absurd h (Text.splitAtFirst_eq_none.mp hs)
  | some p =>
    obtain ⟨hpre, hnot⟩ := Text.splitAtFirst_eq_some.mp hs
    have happ : Text.splitAtFirst '?' (pre ++ rest).toList = some (p.1, p.2 ++ rest.toList) :=
      Text.splitAtFirst_eq_some.mpr ⟨by simp [hpre], hnot⟩
    rw [pathOnly, happ, pathOnly, hs]

theorem mem_of_mem_pathOnly {c : Char} (h : c ∈ (pathOnly path).toList) : c ∈ path.toList := by
  unfold pathOnly at h
  cases hs : Text.splitAtFirst '?' path.toList with
  | none => simpa [hs] using h
  | some p =>
    rw [(Text.splitAtFirst_eq_some.mp hs).1]
    simp only [hs, String.toList_ofList] at h
    exact List.mem_append_left _ h

theorem splitPrefixedPath_eq_some {a b : String} :
    splitPrefixedPath path pre = some (a, b) ↔ path = pre ++ a ++ "/" ++ b ∧ '/' ∉ a.toList := by
  unfold splitPrefixedPath
  simp only [Option.bind_eq_some_iff, after?_eq_some, Option.map_eq_some_iff, Prod.exists,
    Text.splitAtFirst_eq_some, Prod.mk.injEq]
  constructor
  · rintro ⟨rest, rfl, x, y, ⟨hrest, hx⟩, rfl, rfl⟩
    refine ⟨?_, by simpa using hx⟩
    rw [← String.toList_inj]
    simp [hrest]
  · rintro ⟨rfl, ha⟩
    refine ⟨a ++ "/" ++ b, ?_, a.toList, b.toList, ⟨by simp, ha⟩, by simp, by simp⟩
    simp [String.append_assoc]

theorem isSome_splitPrefixedPath : (splitPrefixedPath path pre).isSome =
    (after? pre path).any fun rest => '/' ∈ rest.toList := by
  unfold splitPrefixedPath
  cases after? pre path with
  | none => rfl
  | some rest =>
    cases h : Text.splitAtFirst '/' rest.toList with
    | none => simpa [h] using Text.splitAtFirst_eq_none.mp h
    | some p =>
      have hmem : '/' ∈ rest.toList := by simp [(Text.splitAtFirst_eq_some.mp h).1]
      simp [h, hmem]

end Forms

section Clashes

def clash (p q : List Char) : Bool := (p.zip q).any fun x => x.1 ≠ x.2

theorem not_prefix_of_clash {p q l : List Char} (h : clash p q) : ¬ q <+: p ++ l := by
  induction p generalizing q with
  | nil => simp [clash] at h
  | cons a p ih =>
    cases q with
    | nil => simp [clash] at h
    | cons b q =>
      rw [List.cons_append, List.cons_prefix_cons]
      rintro ⟨rfl, hp⟩
      refine ih ?_ hp
      simpa [clash] using h

theorem after?_other (h : after? pre path = some rest) (hc : clash pre.toList suf.toList) :
    after? suf path = none := by
  rw [after?, if_neg]
  rw [List.isPrefixOf_iff_prefix, after?_eq_some.mp h, String.toList_append]
  exact not_prefix_of_clash hc

theorem before?_other (h : before? pre path = some base)
    (hc : clash pre.toList.reverse suf.toList.reverse) : before? suf path = none := by
  rw [before?, if_neg]
  rw [List.isSuffixOf_iff_suffix, before?_eq_some.mp h, String.toList_append,
    ← List.reverse_prefix, List.reverse_append]
  exact not_prefix_of_clash hc

theorem ne_of_after? (h : after? pre path = some rest) {lit : String}
    (hp : pre.toList.isPrefixOf lit.toList = false) : path ≠ lit := by
  rintro rfl
  rw [after?_eq_some.mp h, ← Bool.not_eq_true, List.isPrefixOf_iff_prefix] at hp
  exact hp (by simp)

end Clashes

section Splits

theorem splitPrefixedPath_of_none (h : after? pre path = none) :
    splitPrefixedPath path pre = none := by
  rw [splitPrefixedPath, h]
  rfl

theorem splitConvSubPath_of_none (h : after? "/v1/conversations/" path = none) :
    splitConvSubPath path = none := splitPrefixedPath_of_none h

theorem conversationIdOnly_of_none (h : after? "/v1/conversations/" path = none) :
    conversationIdOnly path = none := by
  rw [conversationIdOnly, h]
  rfl

theorem splitDeviceSubPath_of_none (h : after? "/v1/devices/" path = none) :
    splitDeviceSubPath path suf = none := by
  rw [splitDeviceSubPath, splitPrefixedPath_of_none h]
  rfl

theorem splitUserDeviceSubPath_of_none (h : after? "/v1/users/" path = none) :
    splitUserDeviceSubPath path suf = none := by
  rw [splitUserDeviceSubPath, h]
  rfl

theorem splitAttachmentSubPath_of_none (h : after? "/v1/attachments/" path = none) :
    splitAttachmentSubPath path = none := by
  rw [splitAttachmentSubPath, h]

theorem splitDeviceSubPath_eq_some {d : DeviceId} : splitDeviceSubPath path suf = some d ↔
    path = "/v1/devices/" ++ d ++ "/" ++ suf ∧ '/' ∉ d.toList := by
  unfold splitDeviceSubPath
  rw [Option.bind_eq_some_iff]
  constructor
  · rintro ⟨⟨a, b⟩, hp, hif⟩
    split at hif
    · rename_i hb
      cases hif
      exact hb ▸ splitPrefixedPath_eq_some.mp hp
    · cases hif
  · intro h
    exact ⟨(d, suf), splitPrefixedPath_eq_some.mpr h, if_pos rfl⟩

theorem splitDeviceSubPath_of_not_mem (h : after? "/v1/devices/" path = some rest)
    (hs : '/' ∉ rest.toList) : splitDeviceSubPath path suf = none := by
  have hsplit : splitPrefixedPath path "/v1/devices/" = none := by
    rw [← Option.not_isSome_iff_eq_none, isSome_splitPrefixedPath, h]
    simpa using hs
  rw [splitDeviceSubPath, hsplit]
  rfl

theorem splitDeviceSubPath_other {suf' : String} (h : (splitDeviceSubPath path suf).isSome)
    (hne : suf ≠ suf') : splitDeviceSubPath path suf' = none := by
  unfold splitDeviceSubPath at h ⊢
  cases hs : splitPrefixedPath path "/v1/devices/" with
  | none => rfl
  | some p =>
    have hp : p.2 = suf := by
      by_contra hp
      simp [hs, hp] at h
    simp [hp, hne]

theorem splitUserDeviceSubPath_tail (h : (splitUserDeviceSubPath path suf).isSome) :
    ∃ rest p q, after? "/v1/users/" path = some rest ∧
      find? "/devices/".toList rest.toList = some p ∧ Text.splitAtFirst '/' p.2 = some q ∧
      String.ofList q.2 = suf := by
  obtain ⟨x, hx⟩ := Option.isSome_iff_exists.mp h
  simp only [splitUserDeviceSubPath, Option.bind_eq_bind, Option.bind_eq_some_iff] at hx
  obtain ⟨rest, hrest, p, hp, q, hq, hif⟩ := hx
  split at hif
  · exact ⟨rest, p, q, hrest, hp, hq, ‹_›⟩
  · cases hif

theorem splitUserDeviceSubPath_other {suf' : String}
    (h : (splitUserDeviceSubPath path suf).isSome) (hne : suf ≠ suf') :
    splitUserDeviceSubPath path suf' = none := by
  by_contra hsome
  obtain ⟨rest, p, q, hrest, hp, hq, hsuf⟩ := splitUserDeviceSubPath_tail h
  obtain ⟨rest', p', q', hrest', hp', hq', hsuf'⟩ :=
    splitUserDeviceSubPath_tail (Option.ne_none_iff_isSome.mp hsome)
  obtain rfl : rest = rest' := Option.some.inj (hrest.symm.trans hrest')
  obtain rfl : p = p' := Option.some.inj (hp.symm.trans hp')
  obtain rfl : q = q' := Option.some.inj (hq.symm.trans hq')
  exact hne (hsuf.symm.trans hsuf')

theorem after?_of_splitUserDeviceSubPath (h : (splitUserDeviceSubPath path suf).isSome) :
    ∃ rest, after? "/v1/users/" path = some rest := by
  cases hu : after? "/v1/users/" path with
  | none =>
    rw [splitUserDeviceSubPath_of_none hu] at h
    cases h
  | some rest => exact ⟨rest, rfl⟩

end Splits

end VoxServer.Http
