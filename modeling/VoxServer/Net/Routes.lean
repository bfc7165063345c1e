import VoxServer.Net.Paths

/-! # The routes as sets of paths

The tests of the handlers are tried in their order, and an earlier one can take a path away
from a later one. Here the paths that some test takes are told without the order, and
compared with the table of the protected routes: the table has all of them, and some that
no test takes.
-/

namespace VoxServer.Http

section Routes

variable {path suf rest : String} (self : UserId)

theorem isSome_deviceScope : (deviceScope self path suf).isSome =
    ((splitDeviceSubPath path suf).isSome || (splitUserDeviceSubPath path suf).isSome) := by
  unfold deviceScope
  split <;> simp [*]

theorem isSome_finalizeRoute : (finalizeRoute path).isSome =
    ((before? "/finalize" path).isSome && (splitAttachmentSubPath path).isSome) := by
  unfold finalizeRoute
  split <;> simp [*]

theorem isSome_chunkRoute : (chunkRoute path).isSome =
    (occurs "/chunk" path && (splitAttachmentSubPath path).isSome) := by
  unfold chunkRoute
  split <;> simp [*]

theorem any_eq_false_of {o : Option (String × String)} {p : String × String → Bool}
    (h : ∀ conv tail, o = some (conv, tail) → p (conv, tail) = false) : o.any p = false := by
  cases o with
  | none => rfl
  | some x => exact h x.1 x.2 rfl

theorem isSome_postRoute : (postRoute self path).isSome =
    ((path = "/v1/logout" ∨ path = "/v1/messages/send" ∨ path = "/v1/messages/ack" ∨
      path = "/v1/conversations" ∨ path = "/v1/attachments/upload-init" ∨
      path = "/v1/account/change-password") ||
    ((splitConvSubPath path).any fun p =>
      p.2 = "members" ∨ p.2 = "subscribe" ∨ p.2 = "unsubscribe") ||
    (deviceScope self path "prekeys").isSome || (finalizeRoute path).isSome) := by
  unfold postRoute
  iterate 5
    split
    · simp [*]
  split
  · simp [*]
  · simp [*]
  · simp [*]
  · rename_i hm hs hu
    have hconv : ((splitConvSubPath path).any fun p =>
        p.2 = "members" ∨ p.2 = "subscribe" ∨ p.2 = "unsubscribe") = false := by
      apply any_eq_false_of
      intro conv tail hc
      rw [decide_eq_false_iff_not]
      rintro (rfl | rfl | rfl)
      · exact hm conv hc
      · exact hs conv hc
      · exact hu conv hc
    rw [hconv]
    split
    · simp [*]
    · split <;> simp [*]

theorem isSome_putRoute : (putRoute self path).isSome =
    (decide (path = "/v1/sync/key-bundle") || (splitSyncRecordPath path).isSome ||
      (deviceScope self path "signed-prekey").isSome || (chunkRoute path).isSome) := by
  unfold putRoute
  split
  · simp [*]
  · split
    · simp [*]
    · split <;> simp [*]

theorem isSome_deleteRoute : (deleteRoute path).isSome =
    match after? "/v1/me/devices/" path with
    | some target => decide (target ≠ "")
    | none => (splitSyncRecordPath path).isSome ||
        (splitConvSubPath path).any fun p => (after? "members/" p.2).isSome := by
  unfold deleteRoute
  split
  · split <;> simp [*]
  · split
    · simp [*]
    · cases splitConvSubPath path with
      | none => simp [*]
      | some p => simp [*]

def recordGap (path : String) : Bool :=
  (after? "/v1/sync/records/" path).any fun rest => '/' ∉ rest.toList

theorem known_post : isKnownProtectedRoute .post path =
    ((postRoute self path).isSome || (splitDeviceSubPath path "signed-prekey").isSome ||
      (splitUserDeviceSubPath path "signed-prekey").isSome) := by
  rw [isSome_postRoute, isSome_deviceScope, isSome_finalizeRoute]
  unfold isKnownProtectedRoute
  cases h : after? "/v1/attachments/" path with
  | some rest =>
    have hc : after? "/v1/conversations/" path = none := after?_other h (by decide)
    have hd : after? "/v1/devices/" path = none := after?_other h (by decide)
    have hu : after? "/v1/users/" path = none := after?_other h (by decide)
    simp only [splitConvSubPath_of_none hc, splitDeviceSubPath_of_none hd,
      splitUserDeviceSubPath_of_none hu, Option.any_none, Option.isSome_some, Option.isSome_none]
    split_ifs <;> simp_all
  | none =>
    rw [splitAttachmentSubPath_of_none h]
    simp only [Option.isSome_none]
    split_ifs <;> simp_all

theorem known_put : isKnownProtectedRoute .put path =
    ((putRoute self path).isSome || recordGap path) := by
  rw [isSome_putRoute, isSome_deviceScope, isSome_chunkRoute, splitSyncRecordPath,
    isSome_splitPrefixedPath]
  unfold isKnownProtectedRoute recordGap
  cases h : after? "/v1/attachments/" path with
  | some rest =>
    have hr : after? "/v1/sync/records/" path = none := after?_other h (by decide)
    simp only [hr, Option.isSome_some, Option.any_none, Option.isSome_none]
    split_ifs <;> simp_all
  | none =>
    rw [splitAttachmentSubPath_of_none h]
    cases hr : after? "/v1/sync/records/" path with
    | some rest => by_cases hs : '/' ∈ rest.toList <;> simp [hs]
    | none =>
      simp only [Option.any_none, Option.isSome_none]
      split_ifs <;> simp_all

theorem known_delete : isKnownProtectedRoute .delete path =
    ((deleteRoute path).isSome || decide (path = "/v1/me/devices/") || recordGap path) := by
  rw [isSome_deleteRoute, splitSyncRecordPath, isSome_splitPrefixedPath]
  unfold isKnownProtectedRoute recordGap
  cases h : after? "/v1/me/devices/" path with
  | some target =>
    have hr : after? "/v1/sync/records/" path = none := after?_other h (by decide)
    obtain rfl := after?_eq_some.mp h
    by_cases ht : target = "" <;> simp [ht]
  | none =>
    have hne : path ≠ "/v1/me/devices/" := by
      rintro rfl
      cases h
    cases hr : after? "/v1/sync/records/" path with
    | some rest => by_cases hs : '/' ∈ rest.toList <;> simp [hs]
    | none => simp [hne]

theorem append_eq_iff {pre rest lit a : String} (h : lit = pre ++ a) :
    pre ++ rest = lit ↔ rest = a := by
  rw [h, String.append_right_inj]

theorem before?_users (suf rest : String)
    (h : ∀ l ∈ suf.toList.inits, l <:+ "/v1/users/".toList → l = [] ∨ l = ['/']) :
    before? suf ("/v1/users/" ++ rest) =
      match before? suf rest with
      | some u => some ("/v1/users/" ++ u)
      | none => if "/" ++ rest = suf then some "/v1/users" else none := by
  cases hb : before? suf rest with
  | some base =>
    rw [before?_eq_some.mp hb]
    exact before?_eq_some.mpr (by rw [String.append_assoc])
  | none =>
    dsimp only
    split
    · rename_i hs
      rw [before?_eq_some, ← hs, ← String.append_assoc]
      rfl
    · rename_i hs
      rw [Option.eq_none_iff_forall_ne_some]
      intro base hbase
      have hlist := congrArg String.toList (before?_eq_some.mp hbase)
      rw [String.toList_append, String.toList_append, List.append_eq_append_iff] at hlist
      rcases hlist with ⟨l, -, hl⟩ | ⟨l, hl, hsuf⟩
      · have hrest : before? suf rest = some (String.ofList l) := by
          rw [before?_eq_some, ← String.toList_inj]
          simpa using hl
        rw [hb] at hrest
        cases hrest
      · rcases h l ((List.mem_inits _ _).mpr ⟨_, hsuf.symm⟩) ⟨_, hl.symm⟩ with rfl | rfl
        · have hrest : before? suf rest = some "" := by
            rw [before?_eq_some, ← String.toList_inj]
            simpa using hsuf.symm
          rw [hb] at hrest
          cases hrest
        · refine hs ?_
          rw [← String.toList_inj, hsuf]
          simp

theorem getRoute_users (rest : String) : getRoute ("/v1/users/" ++ rest) =
    match after? "by-username/" rest with
    | some name => some (.userByUsername name)
    | none =>
      if rest = "search" then some .search
      else match before? "/prekey-bundles" rest with
      | some u => some (.prekeyBundles u)
      | none =>
      if rest = "prekey-bundles" then none
      else match before? "/devices" rest with
      | some u => some (.devicesOf u)
      | none =>
      if rest = "devices" then none
      else if '/' ∈ rest.toList ∨ (after? "by-username" rest).isSome then none
      else some (.user rest) := by
  have h : after? "/v1/users/" ("/v1/users/" ++ rest) = some rest := after?_append _ _
  have hname :
      after? "/v1/users/by-username/" ("/v1/users/" ++ rest) = after? "by-username/" rest :=
    after?_append_left "/v1/users/" "by-username/" rest
  have hsearch : "/v1/users/" ++ rest = "/v1/users/search" ↔ rest = "search" :=
    append_eq_iff rfl
  have hbundles : "/" ++ rest = "/prekey-bundles" ↔ rest = "prekey-bundles" :=
    append_eq_iff rfl
  have hdevices : "/" ++ rest = "/devices" ↔ rest = "devices" := append_eq_iff rfl
  have hchanges : after? "/v1/sync/changes" ("/v1/users/" ++ rest) = none :=
    after?_other h (by decide)
  unfold getRoute
  rw [if_neg (ne_of_after? h (by decide)), if_neg (ne_of_after? h (by decide)),
    if_neg (ne_of_after? h (by decide)), hchanges]
  simp only [Option.isSome_none, Bool.false_eq_true, if_false]
  rw [if_neg (ne_of_after? h (by decide)), hname]
  cases after? "by-username/" rest with
  | some name => rfl
  | none =>
    simp only [hsearch, before?_users "/prekey-bundles" rest (by decide),
      before?_users "/devices" rest (by decide), hbundles, hdevices]
    by_cases hs : rest = "search"
    · simp [hs]
    · simp only [hs, if_false]
      cases before? "/prekey-bundles" rest with
      | some u => simp
      | none =>
        by_cases hb : rest = "prekey-bundles"
        · simp only [hb, if_true]
          rfl
        · simp only [hb, if_false]
          cases before? "/devices" rest with
          | some u => simp
          | none =>
            by_cases hd : rest = "devices"
            · simp only [hd, if_true]
              rfl
            · simp [hd, hs]

/-- The ends of paths that a test for users takes away from all routes after it. -/
def endsLikeUsers (path : String) : Bool :=
  (before? "/prekey-bundles" path).isSome || (before? "/devices" path).isSome

def laterRoute (path : String) : Bool :=
  (conversationIdOnly path).isSome ||
    ((splitConvSubPath path).any fun p => p.2 = "envelopes" ∨ p.2 = "members") ||
    (splitDeviceSubPath path "prekey-bundle").isSome ||
    (!occurs "/chunk" path && !occurs "/finalize" path && (splitAttachmentSubPath path).isSome)

theorem after?_base {base : String} (hu : after? "/v1/users/" path = none)
    (h : before? suf path = some base) : after? "/v1/users/" base = none := by
  rw [Option.eq_none_iff_forall_ne_some]
  intro rest hrest
  rw [before?_eq_some.mp h, after?_eq_some.mp hrest, String.append_assoc, after?_append] at hu
  cases hu

theorem after?_byUsername (hu : after? "/v1/users/" path = none) :
    after? "/v1/users/by-username/" path = none := by
  rw [Option.eq_none_iff_forall_ne_some]
  intro name h
  have happ : path = "/v1/users/" ++ ("by-username/" ++ name) := by
    rw [after?_eq_some.mp h, ← String.append_assoc]
    rfl
  rw [happ, after?_append] at hu
  cases hu

theorem ne_search (hu : after? "/v1/users/" path = none) : path ≠ "/v1/users/search" := by
  rintro rfl
  cases hu

-- a path that ends like one of users is routed only by the tests before those for users
theorem isSome_getRoute_of_ends (hu : after? "/v1/users/" path = none)
    (he : endsLikeUsers path = true) : (getRoute path).isSome =
    ((path = "/v1/me" ∨ path = "/v1/me/devices" ∨ path = "/v1/sync/pending" ∨
      path = "/v1/conversations" ∨ path = "/v1/users" ∨ path = "/v1/sync/key-bundle") ||
      (after? "/v1/sync/changes" path).isSome) := by
  have hsearch := ne_search hu
  have hp : path ≠ "/v1/sync/pending" := by
    rintro rfl
    cases he
  have hc : path ≠ "/v1/conversations" := by
    rintro rfl
    cases he
  unfold getRoute
  iterate 5
    split
    · simp [*]
  rw [after?_byUsername hu]
  dsimp only
  cases hb : before? "/prekey-bundles" path with
  | some base => simp [after?_base hu hb, *]
  | none =>
    cases hd : before? "/devices" path with
    | some base => simp [after?_base hu hd, *]
    | none =>
      rw [endsLikeUsers, hb, hd] at he
      cases he

theorem isSome_getRoute_of_not_ends (hu : after? "/v1/users/" path = none)
    (he : endsLikeUsers path = false) : (getRoute path).isSome =
    ((path = "/v1/me" ∨ path = "/v1/me/devices" ∨ path = "/v1/sync/pending" ∨
      path = "/v1/conversations" ∨ path = "/v1/users" ∨ path = "/v1/sync/key-bundle") ||
      (after? "/v1/sync/changes" path).isSome || laterRoute path) := by
  have hsearch := ne_search hu
  obtain ⟨hb, hd⟩ : before? "/prekey-bundles" path = none ∧ before? "/devices" path = none := by
    simpa [endsLikeUsers] using he
  unfold getRoute laterRoute
  iterate 5
    split
    · simp [*]
  rw [after?_byUsername hu, hb, hd, hu, splitUserDeviceSubPath_of_none hu]
  dsimp only
  split
  · simp [*]
  · simp [*]
  · simp [*]
  · rename_i hm he
    have hconv : ((splitConvSubPath path).any fun p =>
        p.2 = "envelopes" ∨ p.2 = "members") = false := by
      apply any_eq_false_of
      intro conv tail hc
      rw [decide_eq_false_iff_not]
      rintro (rfl | rfl)
      · exact he conv hc
      · exact hm conv hc
    rw [hconv]
    split
    · simp [*]
    · split
      · simp [*]
      · split
        · simp [*]
        · split
          · rename_i ho
            rcases ho with ho | ho <;> simp [*]
          · simp_all

theorem isSome_getRoute (hu : after? "/v1/users/" path = none) : (getRoute path).isSome =
    ((path = "/v1/me" ∨ path = "/v1/me/devices" ∨ path = "/v1/sync/pending" ∨
      path = "/v1/conversations" ∨ path = "/v1/users" ∨ path = "/v1/sync/key-bundle") ||
      (after? "/v1/sync/changes" path).isSome || (!endsLikeUsers path && laterRoute path)) := by
  cases he : endsLikeUsers path with
  | true => simpa using isSome_getRoute_of_ends hu he
  | false => simpa using isSome_getRoute_of_not_ends hu he

theorem not_endsLikeUsers_of_tail {conv tail : String}
    (h : splitConvSubPath path = some (conv, tail)) (ht : tail = "envelopes" ∨ tail = "members") :
    endsLikeUsers path = false := by
  obtain ⟨hpath, -⟩ := splitPrefixedPath_eq_some.mp h
  have hlast : before? tail path = some ("/v1/conversations/" ++ conv ++ "/") :=
    before?_eq_some.mpr hpath
  have hb : before? "/prekey-bundles" path = none := by
    rcases ht with rfl | rfl <;> exact before?_other hlast (by decide)
  have hd : before? "/devices" path = none := by
    rcases ht with rfl | rfl <;> exact before?_other hlast (by decide)
  rw [endsLikeUsers, hb, hd]
  rfl

theorem not_endsLikeUsers_of_device {d : DeviceId}
    (h : splitDeviceSubPath path "prekey-bundle" = some d) : endsLikeUsers path = false := by
  obtain ⟨hpath, -⟩ := splitDeviceSubPath_eq_some.mp h
  have hlast : before? "prekey-bundle" path = some ("/v1/devices/" ++ d ++ "/") :=
    before?_eq_some.mpr hpath
  have hb : before? "/prekey-bundles" path = none := before?_other hlast (by decide)
  have hd : before? "/devices" path = none := before?_other hlast (by decide)
  rw [endsLikeUsers, hb, hd]
  rfl

theorem getRoute_devices (h : after? "/v1/devices/" path = some rest) : getRoute path =
    (splitDeviceSubPath path "prekey-bundle").map .prekeyBundleOfDevice := by
  have hu : after? "/v1/users/" path = none := after?_other h (by decide)
  have hname : after? "/v1/users/by-username/" path = none := after?_other h (by decide)
  have hchanges : after? "/v1/sync/changes" path = none := after?_other h (by decide)
  have hc : after? "/v1/conversations/" path = none := after?_other h (by decide)
  have ha : after? "/v1/attachments/" path = none := after?_other h (by decide)
  have hne := fun lit hl => ne_of_after? h
    ((by decide : ∀ lit ∈ ["/v1/me", "/v1/me/devices", "/v1/sync/key-bundle", "/v1/users",
      "/v1/users/search", "/v1/sync/pending", "/v1/conversations"],
      "/v1/devices/".toList.isPrefixOf lit.toList = false) lit hl)
  simp only [List.forall_mem_cons] at hne
  cases hsplit : splitDeviceSubPath path "prekey-bundle" with
  | some d =>
    have hends := not_endsLikeUsers_of_device hsplit
    simp only [endsLikeUsers, Bool.or_eq_false_iff, Option.isSome_eq_false_iff,
      Option.isNone_iff_eq_none] at hends
    simp [getRoute, hne, hu, hname, hchanges, hends, conversationIdOnly_of_none hc,
      splitConvSubPath_of_none hc, splitUserDeviceSubPath_of_none hu, hsplit]
  | none =>
    rw [Option.map_none, ← Option.not_isSome_iff_eq_none, isSome_getRoute hu]
    simp [hne, hchanges, laterRoute, conversationIdOnly_of_none hc, splitConvSubPath_of_none hc,
      hsplit, splitAttachmentSubPath_of_none ha]

/-- The paths under `/v1/users/` that no test takes. -/
def userGap (path : String) : Bool :=
  (after? "/v1/users/" path).any fun rest => (after? "by-username/" rest).isNone &&
    (rest = "devices" || rest = "prekey-bundles" ||
      (before? "/devices" rest).isNone && (before? "/prekey-bundles" rest).isNone &&
        ('/' ∈ rest.toList || (after? "by-username" rest).isSome))

/-- The paths of conversations and attachments that a test for users takes away. -/
def hiddenGap (path : String) : Bool :=
  endsLikeUsers path && ((conversationIdOnly path).isSome ||
    !occurs "/chunk" path && !occurs "/finalize" path && (splitAttachmentSubPath path).isSome)

theorem known_users (hu : after? "/v1/users/" path = some rest) :
    isKnownProtectedRoute .get path = true := by
  unfold isKnownProtectedRoute
  dsimp only
  split
  · rfl
  · split
    · rfl
    · rw [hu]
      rfl

theorem hiddenGap_users (hu : after? "/v1/users/" path = some rest) : hiddenGap path = false := by
  have hc : after? "/v1/conversations/" path = none := after?_other hu (by decide)
  have ha : after? "/v1/attachments/" path = none := after?_other hu (by decide)
  rw [hiddenGap, conversationIdOnly_of_none hc, splitAttachmentSubPath_of_none ha]
  simp

theorem isSome_getRoute_users (hu : after? "/v1/users/" path = some rest) :
    (getRoute path).isSome = !userGap path := by
  rw [userGap, hu, Option.any_some, after?_eq_some.mp hu, getRoute_users]
  cases after? "by-username/" rest with
  | some name => rfl
  | none =>
    dsimp only
    split
    · rename_i hs
      subst hs
      rfl
    · cases hb : before? "/prekey-bundles" rest with
      | some u =>
        have hd : rest ≠ "devices" := by
          rintro rfl
          cases hb
        have hp : rest ≠ "prekey-bundles" := by
          rintro rfl
          cases hb
        simp [hd, hp]
      | none =>
        dsimp only
        split
        · simp [*]
        · cases hd : before? "/devices" rest with
          | some u =>
            have hne : rest ≠ "devices" := by
              rintro rfl
              cases hd
            simp [*]
          | none =>
            dsimp only
            split
            · simp [*]
            · split
              · rename_i h
                rcases h with h | h <;> simp [h]
              · rename_i hs hp hne h
                simp only [not_or] at h
                simp [hp, hne, h.1, h.2]

theorem known_of_not_users (hu : after? "/v1/users/" path = none) :
    isKnownProtectedRoute .get path =
      ((path = "/v1/me" ∨ path = "/v1/me/devices" ∨ path = "/v1/sync/pending" ∨
        path = "/v1/conversations" ∨ path = "/v1/users" ∨ path = "/v1/sync/key-bundle") ||
        (after? "/v1/sync/changes" path).isSome || laterRoute path) := by
  unfold isKnownProtectedRoute laterRoute
  dsimp only
  rw [splitUserDeviceSubPath_of_none hu, hu]
  split
  · simp [*]
  · split
    · simp [*]
    · rename_i hexact hchanges
      rw [decide_eq_false hexact, Bool.eq_false_of_not_eq_true hchanges]
      simp only [Option.isSome_none, Bool.false_eq_true, if_false, or_false, false_and]
      cases (conversationIdOnly path).isSome
      · cases (splitConvSubPath path).any fun p => p.2 = "envelopes" ∨ p.2 = "members"
        · cases (splitDeviceSubPath path "prekey-bundle").isSome
          · cases ha : after? "/v1/attachments/" path with
            | none => simp [splitAttachmentSubPath_of_none ha]
            | some a => cases occurs "/chunk" path <;> cases occurs "/finalize" path <;> simp
          · simp
        · simp
      · simp

theorem known_get : isKnownProtectedRoute .get path =
    ((getRoute path).isSome || userGap path || hiddenGap path) := by
  cases hu : after? "/v1/users/" path with
  | some rest =>
    rw [known_users hu, isSome_getRoute_users hu, hiddenGap_users hu]
    simp
  | none =>
    have huser : userGap path = false := by
      rw [userGap, hu]
      rfl
    rw [known_of_not_users hu, isSome_getRoute hu, huser]
    cases hends : endsLikeUsers path with
    | false => simp [hiddenGap, hends]
    | true =>
      have hconv : ((splitConvSubPath path).any fun p =>
          p.2 = "envelopes" ∨ p.2 = "members") = false := by
        apply any_eq_false_of
        intro conv tail hc
        rw [decide_eq_false_iff_not]
        intro ht
        rw [not_endsLikeUsers_of_tail hc ht] at hends
        cases hends
      have hdev : splitDeviceSubPath path "prekey-bundle" = none := by
        rw [Option.eq_none_iff_forall_ne_some]
        intro d hd
        rw [not_endsLikeUsers_of_device hd] at hends
        cases hends
      rw [laterRoute, hiddenGap, hconv, hdev, hends]
      simp

/-- The routes of the table that no handler takes. -/
def gap (m : Verb) (path : String) : Bool :=
  match m with
  | .post => (splitDeviceSubPath path "signed-prekey").isSome ||
      (splitUserDeviceSubPath path "signed-prekey").isSome
  | .get => userGap path || hiddenGap path
  | .put => recordGap path
  | .delete => path = "/v1/me/devices/" || recordGap path
  | .other => false

/-- A test of the handlers takes the path. -/
def routed (m : Verb) (self : UserId) (path : String) : Bool :=
  match m with
  | .post => (postRoute self path).isSome
  | .get => (getRoute path).isSome
  | .put => (putRoute self path).isSome
  | .delete => (deleteRoute path).isSome
  | .other => false

theorem known_eq (m : Verb) (path : String) :
    isKnownProtectedRoute m path = (routed m self path || gap m path) := by
  cases m with
  | post => rw [known_post self, routed, gap, Bool.or_assoc]
  | get => rw [known_get, routed, gap, Bool.or_assoc]
  | put => exact known_put self
  | delete => rw [known_delete, routed, gap, Bool.or_assoc]
  | other => rfl

theorem isSome_postRoute_of_gap (h : gap .post path) : (postRoute self path).isSome = false := by
  have hstart : ∀ pre rest, after? pre path = some rest →
      clash pre.toList "/v1/conversations/".toList → clash pre.toList "/v1/attachments/".toList →
      (∀ lit ∈ ["/v1/logout", "/v1/messages/send", "/v1/messages/ack", "/v1/conversations",
        "/v1/attachments/upload-init", "/v1/account/change-password"],
        pre.toList.isPrefixOf lit.toList = false) →
      splitDeviceSubPath path "prekeys" = none → splitUserDeviceSubPath path "prekeys" = none →
      (postRoute self path).isSome = false := by
    intro pre rest hp hc ha hlit hd hu
    have hne := fun lit hl => ne_of_after? hp (hlit lit hl)
    rw [isSome_postRoute, isSome_deviceScope, isSome_finalizeRoute, hd, hu,
      splitConvSubPath_of_none (after?_other hp hc),
      splitAttachmentSubPath_of_none (after?_other hp ha)]
    simp only [List.forall_mem_cons] at hne
    simp [hne]
  rcases (Bool.or_eq_true _ _).mp h with h | h
  · obtain ⟨d, hd⟩ := Option.isSome_iff_exists.mp h
    have hp : after? "/v1/devices/" path = some (d ++ "/" ++ "signed-prekey") := by
      rw [after?_eq_some, (splitDeviceSubPath_eq_some.mp hd).1]
      simp only [String.append_assoc]
    exact hstart _ _ hp (by decide) (by decide) (by decide)
      (splitDeviceSubPath_other h (by decide))
      (splitUserDeviceSubPath_of_none (after?_other hp (by decide)))
  · obtain ⟨rest, hp⟩ := after?_of_splitUserDeviceSubPath h
    exact hstart _ _ hp (by decide) (by decide) (by decide)
      (splitDeviceSubPath_of_none (after?_other hp (by decide)))
      (splitUserDeviceSubPath_other h (by decide))

theorem of_recordGap (h : recordGap path) : (putRoute self path).isSome = false ∧
    (deleteRoute path).isSome = false := by
  obtain ⟨rest, hp, hs⟩ : ∃ rest, after? "/v1/sync/records/" path = some rest ∧
      '/' ∉ rest.toList := by
    unfold recordGap at h
    cases hp : after? "/v1/sync/records/" path with
    | none => simp [hp] at h
    | some rest => exact ⟨rest, rfl, by simpa [hp] using h⟩
  have hsplit : (splitSyncRecordPath path).isSome = false := by
    rw [splitSyncRecordPath, isSome_splitPrefixedPath, hp]
    simpa using hs
  have hne : path ≠ "/v1/sync/key-bundle" := ne_of_after? hp (by decide)
  have hme : after? "/v1/me/devices/" path = none := after?_other hp (by decide)
  constructor
  · rw [isSome_putRoute, isSome_deviceScope, isSome_chunkRoute, hsplit,
      splitDeviceSubPath_of_none (after?_other hp (by decide)),
      splitUserDeviceSubPath_of_none (after?_other hp (by decide)),
      splitAttachmentSubPath_of_none (after?_other hp (by decide))]
    simp [hne]
  · rw [isSome_deleteRoute, hme, hsplit, splitConvSubPath_of_none (after?_other hp (by decide))]
    rfl

theorem isSome_getRoute_of_gap (h : gap .get path) : (getRoute path).isSome = false := by
  rcases (Bool.or_eq_true _ _).mp h with h | h
  · cases hu : after? "/v1/users/" path with
    | some rest => rw [isSome_getRoute_users hu, h]; rfl
    | none =>
      rw [userGap, hu] at h
      cases h
  · obtain ⟨hends, hkind⟩ := (Bool.and_eq_true _ _).mp h
    have hstart : ∀ pre rest, after? pre path = some rest →
        clash pre.toList "/v1/users/".toList → clash pre.toList "/v1/sync/changes".toList →
        (∀ lit ∈ ["/v1/me", "/v1/me/devices", "/v1/sync/pending", "/v1/conversations", "/v1/users",
          "/v1/sync/key-bundle"], pre.toList.isPrefixOf lit.toList = false) →
        (getRoute path).isSome = false := by
      intro pre rest hp hu hc hlit
      have hne := fun lit hl => ne_of_after? hp (hlit lit hl)
      rw [isSome_getRoute (after?_other hp hu), after?_other hp hc, hends]
      simp only [List.forall_mem_cons] at hne
      simp [hne]
    rcases (Bool.or_eq_true _ _).mp hkind with hkind | hkind
    · cases hp : after? "/v1/conversations/" path with
      | some rest => exact hstart _ _ hp (by decide) (by decide) (by decide)
      | none =>
        rw [conversationIdOnly_of_none hp] at hkind
        cases hkind
    · cases hp : after? "/v1/attachments/" path with
      | some rest => exact hstart _ _ hp (by decide) (by decide) (by decide)
      | none => simp [splitAttachmentSubPath_of_none hp] at hkind

theorem routed_of_gap {m : Verb} (h : gap m path) : routed m self path = false := by
  cases m with
  | post => exact isSome_postRoute_of_gap self h
  | get => exact isSome_getRoute_of_gap h
  | put => exact (of_recordGap self h).1
  | delete =>
    rcases (Bool.or_eq_true _ _).mp h with h | h
    · obtain rfl := of_decide_eq_true h
      rfl
    · exact (of_recordGap self h).2
  | other => rfl

end Routes

end VoxServer.Http
