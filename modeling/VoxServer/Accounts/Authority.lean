import VoxServer.Sessions.Lineage

/-! # Who may change an account

The rows of an account are its user, its devices with their prekeys, its sessions and its
sync records. In every run they change only by requests that speak for the user: with a
token of the user, with the password, by signing up, or as the admin who deletes the user.
There is one exception. Whoever is signed in can have a one-time prekey of the user handed
out, and its row is then marked as consumed.
-/

namespace VoxServer.Accounts

open Interleaving Http Table

/-- The rows of an account. -/
structure Account where
  users : List UserRecord
  devices : List DeviceRecord
  prekeys : List PrekeyRow
  sessions : List SessionRecord
  records : List SyncRow
  deriving DecidableEq, Repr

def accountOf (u : UserId) (db : Database) : Account where
  users := db.users.filter (·.userId = u)
  devices := db.devices.filter (·.userId = u)
  prekeys := db.oneTimePrekeys.filter (·.userId = u)
  sessions := db.sessions.filter (·.userId = u)
  records := db.syncRecords.filter (·.userId = u)

def Account.consume (a : Account) (row : PrekeyRow) (now : Timestamp) : Account :=
  { a with prekeys := updateWhere (· = row) (fun r => { r with consumedAt := some now }) a.prekeys }

def writesAccount (u : UserId) : Call → Database → Prop
  | .users (.createUser r), _ => r.userId = u
  | .users (.disableUser v _), _ => v = u
  | .users (.setSyncKeyBundle v _), _ => v = u
  | .users (.updatePasswordCredentials v _ _), _ => v = u
  | .devices (.registerDevice d), _ => d.userId = u
  | .devices (.storePrekeys v _ _), _ => v = u
  | .devices (.getPrekeyBundle v _), _ => v = u
  | .devices (.consumeOneTimePrekey v _), _ => v = u
  | .devices (.updateSignedPrekey v ..), _ => v = u
  | .devices (.revokeDevice v ..), _ => v = u
  | .devices (.updateLastSeen v ..), _ => v = u
  | .sessions (.createSession r), _ => r.userId = u
  | .sessions (.revokeSession i _), db =>
    ∃ r ∈ db.sessions, r.Active ∧ r.sessionId = i ∧ r.userId = u
  | .sessions (.revokeAllForUser v _), _ => v = u
  | .sessions (.revokeAllForDevice v ..), _ => v = u
  | .sessions (.cleanExpired _), _ => True
  | .syncState (.upsertRecord v ..), _ => v = u
  | .syncState (.tombstoneRecord v ..), _ => v = u
  | .admin (.deleteUserRows v), _ => v = u
  | _, _ => False

section Tables

variable {u : UserId} {db : Database}

theorem filter_updateUser {v : UserId} (f : UserRecord → UserRecord)
    (hf : ∀ r, (f r).userId = r.userId) (hv : v ≠ u) :
    (updateWhere (·.userId = v) f db.users).filter (·.userId = u) =
      db.users.filter (·.userId = u) := by
  apply filter_updateWhere_of_not
  intro r _ hr
  rw [decide_eq_true_eq] at hr
  simp [hf, hr, hv]

theorem users_exec {c : UserCall} (hc : ¬ writesAccount u (.users c) db) :
    (c.exec db).2.users.filter (·.userId = u) = db.users.filter (·.userId = u) := by
  cases c with
  | createUser r =>
    rcases UserRepository.createUser_cases r db with ⟨e, he⟩ | ⟨-, -, he⟩
    · rw [UserCall.exec, he]
    · rw [UserCall.exec, he]
      apply filter_append_of_not
      rintro _ hr
      rw [List.mem_singleton.mp hr, decide_eq_true_eq]
      exact hc
  | disableUser v now =>
    simp only [UserCall.exec, UserRepository.disableUser, UserCall.updateUser_snd]
    exact filter_updateUser _ (fun _ => rfl) hc
  | setSyncKeyBundle v b =>
    simp only [UserCall.exec, UserRepository.setSyncKeyBundle, UserCall.updateUser_snd]
    exact filter_updateUser _ (fun _ => rfl) hc
  | updatePasswordCredentials v s t =>
    simp only [UserCall.exec, UserRepository.updatePasswordCredentials, UserCall.updateUser_snd]
    exact filter_updateUser _ (fun _ => rfl) hc
  | _ => rfl

theorem filter_updateDevices {v : UserId} {p : DeviceRecord → Bool}
    (f : DeviceRecord → DeviceRecord) (hf : ∀ r, (f r).userId = r.userId)
    (hp : ∀ r, p r → r.userId = v) (hv : v ≠ u) :
    (updateWhere p f db.devices).filter (·.userId = u) = db.devices.filter (·.userId = u) := by
  apply filter_updateWhere_of_not
  intro r _ hr
  simp [hf, hp r hr, hv]

theorem markConsumed_eq (hv : db.Valid) {row : PrekeyRow} (hrow : row ∈ db.oneTimePrekeys)
    (hnew : row.consumedAt = none) (now : Timestamp) :
    DeviceRepository.markConsumed row now db = { db with
      oneTimePrekeys := updateWhere (· = row) (fun r => { r with consumedAt := some now })
        db.oneTimePrekeys } := by
  have hp : ∀ r ∈ db.oneTimePrekeys,
      decide (r.prekeyId = row.prekeyId ∧ r.consumedAt = none) = decide (r = row) := by
    intro r hr
    rw [decide_eq_decide]
    constructor
    · exact fun h => hv.prekeys_pk.eq_of_mem hr hrow h.1
    · rintro rfl
      exact ⟨rfl, hnew⟩
  have hrows := List.map_congr_left (f := fun r : PrekeyRow =>
    if decide (r.prekeyId = row.prekeyId ∧ r.consumedAt = none) then
      { r with consumedAt := some now } else r) fun r hr => by rw [hp r hr]
  simp only [DeviceRepository.markConsumed, updateWhere, hrows]

theorem prekeys_markConsumed (hv : db.Valid) {v : UserId} {d : DeviceId} {row : PrekeyRow}
    (hrow : row ∈ db.oneTimePrekeys) (ha : DeviceRepository.available v d row)
    (now : Timestamp) (hother : v ≠ u) :
    (DeviceRepository.markConsumed row now db).oneTimePrekeys.filter (·.userId = u) =
      db.oneTimePrekeys.filter (·.userId = u) := by
  obtain ⟨hown, -, hnew⟩ := DeviceRepository.available_iff.mp ha
  rw [markConsumed_eq hv hrow hnew]
  apply filter_updateWhere_of_not
  intro r _ hr
  rw [of_decide_eq_true hr]
  simp [hown, hother]

theorem devices_exec {clock : Timestamp} {c : DeviceCall} (hv : db.Valid)
    (hc : ¬ writesAccount u (.devices c) db) :
    (c.exec clock db).2.devices.filter (·.userId = u) = db.devices.filter (·.userId = u) ∧
      (c.exec clock db).2.oneTimePrekeys.filter (·.userId = u) =
        db.oneTimePrekeys.filter (·.userId = u) := by
  have hown : ∀ {v : UserId} {d : DeviceId} {r : DeviceRecord}, r.key = (v, d) → r.userId = v :=
    fun h => congrArg Prod.fst h
  cases c with
  | registerDevice d =>
    simp only [DeviceCall.exec, DeviceRepository.registerDevice]
    split
    · rename_i hins
      obtain ⟨-, -, rfl⟩ := DeviceRepository.insertDevice_ok hins
      refine ⟨filter_append_of_not fun r hr => ?_, rfl⟩
      rw [List.mem_singleton.mp hr, decide_eq_true_eq]
      exact hc
    · exact ⟨rfl, rfl⟩
    · exact ⟨rfl, rfl⟩
  | storePrekeys v d ks =>
    simp only [DeviceCall.exec, DeviceRepository.storePrekeys]
    split
    · rename_i hins
      obtain ⟨rows, rfl, hrows, -⟩ := DeviceRepository.insertPrekeys_ok hins
      constructor
      · exact filter_updateDevices _ (fun _ => rfl) (fun r hr => hown (of_decide_eq_true hr)) hc
      refine filter_append_of_not fun r hr => ?_
      have hv := (DeviceRepository.available_iff.mp (hrows r hr)).1
      rw [hv, decide_eq_true_eq]
      exact hc
    · exact ⟨rfl, rfl⟩
  | getPrekeyBundle v d =>
    rcases DeviceRepository.getPrekeyBundle_snd v d clock db with he | ⟨row, hrow, ha, he⟩
    · rw [DeviceCall.exec, he]
      exact ⟨rfl, rfl⟩
    · rw [DeviceCall.exec, he]
      exact ⟨rfl, prekeys_markConsumed hv hrow ha clock hc⟩
  | consumeOneTimePrekey v d =>
    simp only [DeviceCall.exec, DeviceRepository.consumeOneTimePrekey]
    rcases DeviceRepository.consumeOneAvailableOtpLocked_cases v d clock db with
      ⟨-, he⟩ | ⟨row, hrow, ha, he⟩
    · rw [he]
      exact ⟨rfl, rfl⟩
    · rw [he]
      exact ⟨rfl, prekeys_markConsumed hv hrow ha clock hc⟩
  | updateSignedPrekey v d key signature now =>
    simp only [DeviceCall.exec, DeviceRepository.updateSignedPrekey]
    have hdevices : ∀ f : DeviceRecord → DeviceRecord, (∀ r, (f r).userId = r.userId) →
        (updateWhere (fun d' => decide (d'.key = (v, d) ∧ d'.revokedAt = none)) f
          db.devices).filter (·.userId = u) = db.devices.filter (·.userId = u) :=
      fun f hf => filter_updateDevices f hf (fun r hr => hown (of_decide_eq_true hr).1) hc
    split <;> exact ⟨hdevices _ fun _ => rfl, rfl⟩
  | revokeDevice v d now =>
    rcases DeviceRepository.revokeDevice_cases v d now db with ⟨-, he⟩ | ⟨-, he⟩
    · rw [DeviceCall.exec, he]
      constructor
      · exact filter_updateDevices _ (fun _ => rfl) (fun r hr => hown (of_decide_eq_true hr).1) hc
      · refine filter_deleteWhere_of_not fun r _ hr => ?_
        have hv : r.userId = v := (of_decide_eq_true hr).1
        rw [hv, decide_eq_true_eq]
        exact hc
    · rw [DeviceCall.exec, he]
      exact ⟨rfl, rfl⟩
  | updateLastSeen v d now =>
    exact ⟨filter_updateDevices _ (fun _ => rfl) (fun r hr => hown (of_decide_eq_true hr)) hc, rfl⟩
  | _ => exact ⟨rfl, rfl⟩

theorem sessions_exec {c : SessionCall} (hc : ¬ writesAccount u (.sessions c) db) :
    (c.exec db).2.sessions.filter (·.userId = u) = db.sessions.filter (·.userId = u) := by
  have he := c.exec_effect db
  generalize (c.exec db).2 = db' at he ⊢
  cases he with
  | same => rfl
  | create r _ h =>
    obtain ⟨-, -, -, -, -, rfl⟩ := SessionRepository.insertSession_ok h
    apply filter_append_of_not
    intro _ hr
    rw [List.mem_singleton.mp hr, decide_eq_true_eq]
    exact hc
  | revoke c now =>
    apply filter_updateWhere_of_not
    intro r hr hrev
    have hother : r.userId ≠ u := by
      rintro rfl
      obtain ⟨hrev, ha⟩ := of_decide_eq_true hrev
      cases c with
      | revokeSession i now => exact hc ⟨r, hr, ha, of_decide_eq_true hrev, rfl⟩
      | revokeAllForUser v now => exact hc (of_decide_eq_true hrev).symm
      | revokeAllForDevice v d now => exact hc (of_decide_eq_true hrev).1.symm
      | _ => cases hrev
    simp [hother, SessionRecord.revoke]
  | clean => exact absurd trivial hc

theorem records_exec {c : SyncCall} (hc : ¬ writesAccount u (.syncState c) db) :
    (c.exec db).2.syncRecords.filter (·.userId = u) = db.syncRecords.filter (·.userId = u) := by
  rcases c.exec_cases db with ⟨-, he⟩ | ⟨w, hw, -, hcom⟩
  · rw [he]
  have hother : w.key.1 ≠ u := by
    rintro rfl
    cases c with
    | listChangesAfterCursor => cases hw
    | upsertRecord => cases hw; exact hc rfl
    | tombstoneRecord => cases hw; exact hc rfl
  generalize (c.exec db).2 = db' at hcom ⊢
  cases hcom with
  | update row hm hkey hver =>
    apply filter_updateWhere_of_not
    intro r _ hr
    have hown : r.userId = w.key.1 := congrArg Prod.fst (of_decide_eq_true hr)
    simp [hown, hother]
  | insert hnew hver hid huser =>
    apply filter_append_of_not
    intro _ hr
    rw [List.mem_singleton.mp hr, decide_eq_true_eq]
    exact hother

end Tables

theorem accountOf_exec {cfg : ServerConfig} {c : Call} {s : Server} {u : UserId}
    (hv : s.db.Valid) (hc : ¬ writesAccount u c s.db) :
    accountOf u (c.exec cfg s).2.db = accountOf u s.db := by
  have hframe := c.exec_frame cfg s
  cases c with
  | users c =>
    have husers : ((Call.users c).exec cfg s).2.db.users.filter (·.userId = u) = _ := users_exec hc
    obtain ⟨us, he⟩ := hframe
    rw [he] at husers ⊢
    simp only [accountOf, husers]
  | devices c =>
    have hdevices : ((Call.devices c).exec cfg s).2.db.devices.filter (·.userId = u) = _ ∧
        ((Call.devices c).exec cfg s).2.db.oneTimePrekeys.filter (·.userId = u) = _ :=
      devices_exec hv hc
    obtain ⟨ds, ps, he⟩ := hframe
    rw [he] at hdevices ⊢
    simp only [accountOf, hdevices]
  | sessions c =>
    have hsessions : ((Call.sessions c).exec cfg s).2.db.sessions.filter (·.userId = u) = _ :=
      sessions_exec hc
    obtain ⟨rows, he⟩ := hframe
    rw [he] at hsessions ⊢
    simp only [accountOf, hsessions]
  | syncState c =>
    have hrecords : ((Call.syncState c).exec cfg s).2.db.syncRecords.filter (·.userId = u) = _ :=
      records_exec hc
    obtain ⟨rows, n, he⟩ := hframe
    rw [he] at hrecords ⊢
    simp only [accountOf, hrecords]
  | admin c =>
    cases c with | deleteUserRows v =>
    rcases hframe with he | he
    · rw [he]
    · have hother : ∀ w : UserId, decide (w = v) = true → ¬ decide (w = u) = true := by
        intro w hw hu
        exact hc ((of_decide_eq_true hw).symm.trans (of_decide_eq_true hu))
      rw [he]
      simp only [accountOf, AdminService.withoutUser]
      rw [filter_deleteWhere_of_not fun _ _ => hother _,
        filter_deleteWhere_of_not fun _ _ => hother _,
        filter_deleteWhere_of_not fun _ _ => hother _,
        filter_deleteWhere_of_not fun _ _ => hother _]
  | conversations c => obtain ⟨cs, ms, ss, he⟩ := hframe; rw [he]; rfl
  | envelopes c => obtain ⟨es, ds, he⟩ := hframe; rw [he]; rfl
  | attachments c => obtain ⟨as, he⟩ := hframe; rw [he]; rfl
  | delivery c => obtain ⟨ds, he⟩ := hframe; rw [he]; rfl
  | _ => rw [hframe]

theorem accountOf_getPrekeyBundle (cfg : ServerConfig) {s : Server} {u : UserId} {d : DeviceId}
    (hv : s.db.Valid) :
    accountOf u ((Call.devices (.getPrekeyBundle u d)).exec cfg s).2.db = accountOf u s.db ∨
      ∃ row ∈ (accountOf u s.db).prekeys, row.consumedAt = none ∧
        accountOf u ((Call.devices (.getPrekeyBundle u d)).exec cfg s).2.db =
          (accountOf u s.db).consume row s.clock := by
  simp only [Call.exec, Call.onDb, DeviceCall.exec]
  rcases DeviceRepository.getPrekeyBundle_snd u d s.clock s.db with he | ⟨row, hrow, ha, he⟩
  · rw [he]
    exact .inl rfl
  · obtain ⟨hown, -, hnew⟩ := DeviceRepository.available_iff.mp ha
    refine .inr ⟨row, List.mem_filter.mpr ⟨hrow, decide_eq_true hown⟩, hnew, ?_⟩
    rw [he, markConsumed_eq hv hrow hnew]
    simp only [accountOf, Account.consume]
    congr 1
    exact filter_updateWhere fun _ => rfl

/-- In whose name a request acts when it makes a call. -/
inductive OnBehalf (cfg : ServerConfig) (req : IncomingRequest) (draws : Draws) (es : List Ev)
    (ev : Ev) : UserId → Prop
  | token {sess : SessionRecord} (hsess : SignedIn cfg req sess es) :
      OnBehalf cfg req draws es ev sess.userId
  | signUp {r : UserRecord} (hcall : ev.call = .users (.createUser r))
      (hid : r.userId = draws.uuid) : OnBehalf cfg req draws es ev r.userId
  | credentials {u : UserId} {d : DeviceId} (h : SpeaksFor cfg req draws es u d) :
      OnBehalf cfg req draws es ev u
  | admin {u : UserId} (hcall : ev.call = .admin (.deleteUserRows u)) (hset : cfg.adminToken ≠ "")
      (htoken : req.xAdminToken = some cfg.adminToken) : OnBehalf cfg req draws es ev u

/-- A request of some user takes a bundle of a device of the user. One prekey that was not consumed
is marked as consumed, and nothing else of the account changes. -/
structure HandsOut (cfg : ServerConfig) (req : IncomingRequest) (es : List Ev) (ev : Ev)
    (u : UserId) : Prop where
  signedIn : ∃ sess, SignedIn cfg req sess es
  bundle : ∃ d, ev.call = .devices (.getPrekeyBundle u d)
  consumed : ∃ row ∈ (accountOf u ev.pre.db).prekeys, row.consumedAt = none ∧
    accountOf u ((httpServer cfg).post ev).db = (accountOf u ev.pre.db).consume row ev.pre.clock

section Sessions

/-- The sessions in force that the calls of a trace met are among the rows. -/
def Meets (rows : List SessionRecord) (es : List Ev) : Prop :=
  ∀ ev ∈ es, ∀ r ∈ ev.pre.db.sessions, r.Active → r ∈ rows

theorem meets_issued (cfg : ServerConfig) (init : Server) (acts : List NetAct) :
    Meets (Sessions.issued init (serveHttp cfg init acts).trace)
      (serveHttp cfg init acts).trace := by
  have hbefore : Always (fun tr ev => ∀ r ∈ ev.pre.db.sessions, r.Active →
      r ∈ Sessions.issued init tr) (serveHttp cfg init acts).trace := by
    refine ((httpServer cfg).always_invariant (Q := fun _ _ => True)
      (I := fun tr s => ∀ r ∈ s.db.sessions, r.Active → r ∈ Sessions.issued init tr)
      (always_of_mem fun _ _ => trivial) (fun r hr _ => List.mem_append_left _ hr) ?_
      (fun _ _ _ h => h)).2
    intro tr s i c _ ih r hr ha
    simp only [Sessions.issued, List.filterMap_append, List.mem_append] at ih ⊢
    rcases Sessions.mem_exec_active cfg ha hr with ⟨hold, -⟩ | hnew
    · exact (ih r hold ha).imp_right .inl
    · exact .inr (.inr (List.mem_filterMap.mpr ⟨_, List.mem_singleton_self _, hnew⟩))
  intro ev hev r hr ha
  obtain ⟨tr₁, tr₂, htr⟩ := List.append_of_mem hev
  rw [htr] at hbefore ⊢
  have hin := hbefore.at r hr ha
  simp only [Sessions.issued, List.filterMap_append, List.mem_append] at hin ⊢
  tauto

variable {rows : List SessionRecord} {es es' : List Ev}

theorem Meets.mono (h : Meets rows es') (hes : es ⊆ es') : Meets rows es :=
  fun ev hev => h ev (hes hev)

theorem Meets.signedIn {cfg : ServerConfig} {req : IncomingRequest} {sess : SessionRecord}
    (h : Meets rows es) (hsess : SignedIn cfg req sess es) : sess ∈ rows := by
  obtain ⟨token, -, hvalid⟩ := hsess
  obtain ⟨ev, hev, hfound⟩ := hvalid.found
  obtain ⟨hm, -, ha⟩ := SessionRepository.findByAccessToken_some hfound
  exact h ev hev sess hm ha

theorem Meets.refreshToken {hash : String} {old : SessionRecord} (h : Meets rows es)
    (hfound : Sometime (fun s => SessionRepository.findByRefreshToken hash s.db = some old) es) :
    old ∈ rows := by
  obtain ⟨ev, hev, hfound⟩ := hfound
  obtain ⟨hm, -, ha⟩ := SessionRepository.findByRefreshToken_some hfound
  exact h ev hev old hm ha

end Sessions

section Requests

variable {cfg : ServerConfig} {req : IncomingRequest} {draws : Draws} {es : List Ev} {ev : Ev}
  {u : UserId} {rows : List SessionRecord}

theorem not_writesAccount_of_reads {c : Call} {db : Database} (hc : c.reads) :
    ¬ writesAccount u c db := by
  intro hw
  unfold writesAccount at hw
  split at hw
  case h_20 => exact hw
  all_goals cases hc

theorem not_writesAccount_of_housekeeping {c : Call} {db : Database} (hc : housekeeping c) :
    ¬ writesAccount u c db := by
  unfold housekeeping at hc
  split at hc
  · exact id
  unfold purges at hc
  split at hc
  case h_4 => exact not_writesAccount_of_reads hc
  all_goals exact id

theorem getPrekeyBundle_of_quiet {c : Call} {db : Database} (hc : c.quiet)
    (hw : writesAccount u c db) : ∃ d, c = .devices (.getPrekeyBundle u d) := by
  unfold writesAccount at hw
  split at hw
  case h_7 v d =>
    obtain rfl : v = u := hw
    exact ⟨d, rfl⟩
  case h_20 => exact absurd hw id
  all_goals cases hc

theorem handsOut_of_quiet {sess : SessionRecord} (hsess : SignedIn cfg req sess es)
    (hv : ev.pre.db.Valid) (hc : ev.call.quiet) (hw : writesAccount u ev.call ev.pre.db)
    (hchanged : accountOf u ((httpServer cfg).post ev).db ≠ accountOf u ev.pre.db) :
    HandsOut cfg req es ev u := by
  obtain ⟨i, c, s⟩ := ev
  obtain ⟨d, rfl⟩ := getPrekeyBundle_of_quiet hc hw
  exact ⟨⟨sess, hsess⟩, ⟨d, rfl⟩, (accountOf_getPrekeyBundle cfg hv).resolve_left hchanged⟩

theorem userId_of_revokeSession (hids : UniqueOn SessionRecord.sessionId rows)
    (hmeets : Meets rows [ev]) {sess : SessionRecord} (hsess : sess ∈ rows) {now : Timestamp}
    (hw : writesAccount u (.sessions (.revokeSession sess.sessionId now)) ev.pre.db) :
    sess.userId = u := by
  obtain ⟨row, hrow, ha, hid, rfl⟩ := hw
  rw [hids.eq_of_mem hsess (hmeets ev (List.mem_singleton_self _) row hrow ha) hid.symm]

theorem onBehalf_of_acts (hids : UniqueOn SessionRecord.sessionId rows)
    (hmeets : Meets rows (es ++ [ev])) (hv : ev.pre.db.Valid) {sess : SessionRecord}
    (hsess : SignedIn cfg req sess es) {es' : List Ev} (h : Acts cfg req draws sess es' ev.call)
    (hw : writesAccount u ev.call ev.pre.db)
    (hchanged : accountOf u ((httpServer cfg).post ev).db ≠ accountOf u ev.pre.db) :
    OnBehalf cfg req draws es ev u ∨ HandsOut cfg req es ev u := by
  generalize hcall : ev.call = c at h
  cases h with
  | quiet hc => exact .inr (handsOut_of_quiet hsess hv (hcall ▸ hc) hw hchanged)
  | logout =>
    rw [hcall] at hw
    have hin := (hmeets.mono (List.subset_append_left _ _)).signedIn hsess
    obtain rfl := userId_of_revokeSession hids (hmeets.mono (List.subset_append_right _ _)) hin hw
    exact .inl (.token hsess)
  | changePassword | keyBundle | prekeys | signedPrekey | revokeDevice | revokeSessions |
    putRecord | deleteRecord =>
    rw [hcall] at hw
    obtain rfl : sess.userId = u := hw
    exact .inl (.token hsess)
  | _ =>
    rw [hcall] at hw
    exact absurd hw id

theorem onBehalf_of_enters (hids : UniqueOn SessionRecord.sessionId rows)
    (hmeets : Meets rows (es ++ [ev])) {es' : List Ev} (hes : es' ⊆ es)
    (h : Enters cfg req draws es' ev.call) (hw : writesAccount u ev.call ev.pre.db) :
    OnBehalf cfg req draws es ev u := by
  generalize hcall : ev.call = c at h hw
  cases h with
  | quiet hc => exact absurd hw (not_writesAccount_of_reads hc)
  | createUser ho hid =>
    obtain rfl : _ = u := hw
    exact .signUp hcall hid
  | registerDevice h | updateLastSeen h | createSession h =>
    obtain rfl : _ = u := hw
    exact .credentials (.stable hes h)
  | rotate ho hfound h =>
    have hin := (hmeets.mono (List.subset_append_left _ _)).refreshToken (.stable hes hfound)
    obtain rfl := userId_of_revokeSession hids (hmeets.mono (List.subset_append_right _ _)) hin hw
    exact .credentials (.stable hes h)

theorem onBehalf_of_permitted (hids : UniqueOn SessionRecord.sessionId rows)
    (hmeets : Meets rows (es ++ [ev])) (hv : ev.pre.db.Valid)
    (h : Permitted cfg req draws es ev.call) (hw : writesAccount u ev.call ev.pre.db)
    (hchanged : accountOf u ((httpServer cfg).post ev).db ≠ accountOf u ev.pre.db) :
    OnBehalf cfg req draws es ev u ∨ HandsOut cfg req es ev u := by
  generalize hcall : ev.call = c at h
  cases h with
  | quiet hc => exact absurd hw (hcall ▸ not_writesAccount_of_reads hc)
  | enters hes h =>
    subst hes hcall
    exact .inl (onBehalf_of_enters hids hmeets (List.subset_append_right _ _) h hw)
  | acts hes hsess h =>
    subst hes hcall
    exact onBehalf_of_acts hids hmeets hv (.stable (List.subset_append_left _ _) hsess) h hw
      hchanged
  | deleteUser hset htoken =>
    rw [hcall] at hw
    obtain rfl : _ = u := hw
    exact .inl (.admin hcall hset htoken)

end Requests

/-- In every run in which no session id is drawn twice, a call that changes the rows of an account
is made by a request on behalf of its user, or hands out one of its prekeys. -/
theorem account_changes_authorised (cfg : ServerConfig) (init : Server) (acts : List NetAct)
    (hv : init.db.Valid) (hids : UniqueOn SessionRecord.sessionId
      (Sessions.issued init (serveHttp cfg init acts).trace)) :
    Always (fun tr ev => ∀ u,
      accountOf u ((httpServer cfg).post ev).db ≠ accountOf u ev.pre.db →
        ∃ req draws, opAt (serveHttp cfg init acts) ev.tid = some (.http req draws) ∧
          (OnBehalf cfg req draws (localTrace ev.tid tr) ev u ∨
            HandsOut cfg req (localTrace ev.tid tr) ev u))
      (serveHttp cfg init acts).trace := by
  have hmeets := meets_issued cfg init acts
  have hvalid : ∀ ev ∈ (serveHttp cfg init acts).trace, ev.pre.db.Valid :=
    (serveHttp_valid hv acts).2
  generalize Sessions.issued init (serveHttp cfg init acts).trace = rows at hids hmeets
  refine always_of_forall fun tr ev rest htr u hchanged => ?_
  have hin : ∀ e ∈ localTrace ev.tid tr ++ [ev], e ∈ (serveHttp cfg init acts).trace := by
    intro e he
    rw [htr]
    rcases List.mem_append.mp he with he | he
    · exact List.mem_append_left _ (List.mem_of_mem_filter he)
    · rw [List.mem_singleton.mp he]
      simp
  have hpre := hvalid ev (hin ev (by simp))
  obtain ⟨o, hop, hperm⟩ := (htr ▸ permitted_run cfg init acts).at
  have hw : writesAccount u ev.call ev.pre.db := by
    by_contra hnot
    exact hchanged (accountOf_exec hpre hnot)
  cases o with
  | http req draws =>
    exact ⟨req, draws, hop,
      onBehalf_of_permitted hids (hmeets.mono hin) hpre hperm hw hchanged⟩
  | _ =>
    exact absurd hw (not_writesAccount_of_housekeeping (housekeeping_of_permits (by simp) hperm))

set_option maxRecDepth 4000 in
/-- The refresh revokes the session that the registration created. -/
theorem renewal_authorised :
    ∃ ev, (serveHttp Sessions.joining {} Sessions.joinAndRenew).trace[7]? = some ev ∧
      accountOf "u" ((httpServer Sessions.joining).post ev).db ≠ accountOf "u" ev.pre.db ∧
      ∃ req draws, opAt (serveHttp Sessions.joining {} Sessions.joinAndRenew) ev.tid =
        some (.http req draws) ∧
        (OnBehalf Sessions.joining req draws (localTrace ev.tid
          ((serveHttp Sessions.joining {} Sessions.joinAndRenew).trace.take 7)) ev "u" ∨
        HandsOut Sessions.joining req (localTrace ev.tid
          ((serveHttp Sessions.joining {} Sessions.joinAndRenew).trace.take 7)) ev "u") := by
  have hall := account_changes_authorised Sessions.joining {} Sessions.joinAndRenew (by decide)
    (by decide)
  obtain ⟨ev, hev⟩ : ∃ ev,
      (serveHttp Sessions.joining {} Sessions.joinAndRenew).trace[7]? = some ev := ⟨_, rfl⟩
  have hchanged : accountOf "u" ((httpServer Sessions.joining).post ev).db ≠
      accountOf "u" ev.pre.db := by
    rw [← Option.some.inj hev]
    decide
  exact ⟨ev, hev, hchanged, hall.getElem? hev "u" hchanged⟩

end VoxServer.Accounts
