import VoxServer.Delivery.Fidelity
import VoxServer.Net.Permitted

/-! # Who may write to a conversation

A message is stored only for a sender who, while the request ran, took part in the
conversation and was allowed to post. Who belongs to a conversation changes only by its
founder, by a manager of a group, by a user who subscribes or leaves, or by the deletion of
the user.
-/

namespace VoxServer.Conversations

open Interleaving Http Table

section Messages

variable (cfg : ServerConfig) (init : Server) (acts : List NetAct)

theorem stored_of_mem {e : EnvelopeRecord}
    (he : e ∈ (serveHttp cfg init acts).state.db.encryptedEnvelopes) :
    e ∈ init.db.encryptedEnvelopes ∨
      ∃ ev ∈ (serveHttp cfg init acts).trace, ev.call = .envelopes (.storeEnvelope e) := by
  have hinv := (httpServer cfg).trace_invariant (P := fun _ => True)
    (I := fun tr s => ∀ e ∈ s.db.encryptedEnvelopes, e ∈ init.db.encryptedEnvelopes ∨
      ∃ ev ∈ tr, ev.call = .envelopes (.storeEnvelope e))
    (fun e (he : e ∈ init.db.encryptedEnvelopes) => .inl he) ?_
    (fun _ _ _ h => h) acts (fun o _ => ((httpServer cfg).code o).only_true)
  · exact hinv e he
  · intro tr s i c _ ih e he
    rcases Call.envelope_of_exec cfg he with he | ⟨hc, -⟩
    · refine (ih e he).imp_right ?_
      rintro ⟨ev, hev, hcall⟩
      exact ⟨ev, List.mem_append_left _ hev, hcall⟩
    · exact .inr ⟨⟨i, c, s⟩, by simp, hc⟩

/-- The sender of an envelope that a request stores was signed in and may post. -/
structure SenderChecked (req : IncomingRequest) (e : EnvelopeRecord) (es : List Ev) : Prop where
  signedIn : ∃ sess, SignedIn cfg req sess es ∧ sess.userId = e.senderUserId ∧
    sess.deviceId = e.senderDeviceId
  mayPost : MayPost e.conversationId e.senderUserId es

variable {cfg}

theorem senderChecked_of_permitted {req : IncomingRequest} {draws : Draws} {es : List Ev}
    {e : EnvelopeRecord} (h : Permitted cfg req draws es (.envelopes (.storeEnvelope e))) :
    SenderChecked cfg req e es := by
  cases h with
  | quiet hc => cases hc
  | enters hes h => cases h with | quiet hc => cases hc
  | acts hes hsess h =>
    subst hes
    cases h with
    | quiet hc => cases hc
    | send hu hd hmay =>
      refine ⟨⟨_, .stable (List.subset_append_left _ _) hsess, hu.symm, hd.symm⟩, ?_⟩
      rw [hu]
      exact .stable (List.subset_append_right _ _) hmay

variable (cfg)

/-- Every envelope of every state was stored by a request of its sender, after the checks. -/
theorem messages_authorised {e : EnvelopeRecord}
    (he : e ∈ (serveHttp cfg init acts).state.db.encryptedEnvelopes)
    (hnew : e ∉ init.db.encryptedEnvelopes) :
    ∃ tr ev rest req draws, (serveHttp cfg init acts).trace = tr ++ ev :: rest ∧
      ev.call = .envelopes (.storeEnvelope e) ∧
      opAt (serveHttp cfg init acts) ev.tid = some (.http req draws) ∧
      SenderChecked cfg req e (localTrace ev.tid tr) := by
  obtain ⟨ev, hev, hcall⟩ := (stored_of_mem cfg init acts he).resolve_left hnew
  obtain ⟨tr, rest, htr⟩ := List.append_of_mem hev
  obtain ⟨o, hop, hperm⟩ := (htr ▸ permitted_run cfg init acts).at
  rw [hcall] at hperm
  cases o with
  | http req draws =>
    exact ⟨tr, ev, rest, req, draws, htr, hcall, hop, senderChecked_of_permitted hperm⟩
  | _ => cases housekeeping_of_permits (by simp) hperm

set_option maxRecDepth 4000 in
/-- The only envelope of a run. -/
theorem note_authorised : ∃ tr ev rest req draws,
    (serveHttp (Fidelity.sending "\"xy\"" "xy") Fidelity.alone
      (Fidelity.sendThenList "\"xy\"")).trace = tr ++ ev :: rest ∧
    ev.call = .envelopes (.storeEnvelope (Fidelity.row "xy")) ∧
    opAt (serveHttp (Fidelity.sending "\"xy\"" "xy") Fidelity.alone
      (Fidelity.sendThenList "\"xy\"")) ev.tid = some (.http req draws) ∧
    SenderChecked (Fidelity.sending "\"xy\"" "xy") req (Fidelity.row "xy") (localTrace ev.tid tr) :=
  messages_authorised _ _ _ (by decide) (by decide)

end Messages

section Membership

def membershipOf (k : ConversationId × UserId) (db : Database) :
    List MemberRecord × List SubscriptionRow :=
  (db.conversationMembers.filter (·.key = k), db.channelSubscriptions.filter (·.key = k))

def writesMembership (k : ConversationId × UserId) : Call → Prop
  | .conversations (.addMember c u ..) => (c, u) = k
  | .conversations (.removeMember c u _) => (c, u) = k
  | .conversations (.subscribe c u _) => (c, u) = k
  | .conversations (.unsubscribe c u _) => (c, u) = k
  | .admin (.deleteUserRows u) => u = k.2
  | _ => False

variable {k : ConversationId × UserId} {db : Database}

theorem filter_updateKey {ρ : Type} {key : ρ → ConversationId × UserId}
    {k' : ConversationId × UserId} {p : ρ → Bool} {f : ρ → ρ} {rows : List ρ}
    (hf : ∀ r, key (f r) = key r) (hp : ∀ r, p r → key r = k') (hk : k' ≠ k) :
    (updateWhere p f rows).filter (key · = k) = rows.filter (key · = k) := by
  apply filter_updateWhere_of_not
  intro r _ hr
  simp [hf, hp r hr, hk]

theorem members_exec {c : ConversationCall} (hc : ¬ writesMembership k (.conversations c)) :
    (c.exec db).2.conversationMembers.filter (·.key = k) =
      db.conversationMembers.filter (·.key = k) := by
  cases c with
  | addMember c u r now =>
    simp only [ConversationCall.exec, ConversationRepository.addMember]
    split
    · rename_i hup
      rcases ConversationRepository.upsertMember_ok hup with ⟨-, rfl⟩ | ⟨-, -, -, rfl⟩
      · exact filter_updateKey (fun _ => rfl) (fun _ hr => of_decide_eq_true hr) hc
      · apply filter_append_of_not
        intro r hr
        rw [List.mem_singleton.mp hr, decide_eq_true_eq]
        exact hc
    · rfl
  | removeMember c u now =>
    have hrows : (updateWhere (fun m => decide (m.key = (c, u) ∧ m.removedAt = none))
        (fun m : MemberRecord => { m with removedAt := some now }) db.conversationMembers).filter
          (·.key = k) = _ :=
      filter_updateKey (fun _ => rfl) (fun _ hr => (of_decide_eq_true hr).1) hc
    simp only [ConversationCall.exec, ConversationRepository.removeMember]
    split
    · exact hrows
    · exact hrows
  | _ => rw [ConversationCall.exec_members rfl]

theorem subscriptions_exec {c : ConversationCall} (hc : ¬ writesMembership k (.conversations c)) :
    (c.exec db).2.channelSubscriptions.filter (·.key = k) =
      db.channelSubscriptions.filter (·.key = k) := by
  cases c with
  | subscribe c u now =>
    simp only [ConversationCall.exec, ConversationRepository.subscribe]
    split
    · rename_i hup
      rcases ConversationRepository.upsertSubscription_ok hup with ⟨-, rfl⟩ | ⟨-, -, -, rfl⟩
      · exact filter_updateKey (fun _ => rfl) (fun _ hr => of_decide_eq_true hr) hc
      · apply filter_append_of_not
        intro r hr
        rw [List.mem_singleton.mp hr, decide_eq_true_eq]
        exact hc
    · rfl
  | unsubscribe c u now =>
    have hrows : (updateWhere (fun r => decide (r.key = (c, u) ∧ r.unsubscribedAt = none))
        (fun r : SubscriptionRow => { r with unsubscribedAt := some now })
          db.channelSubscriptions).filter (·.key = k) = _ :=
      filter_updateKey (fun _ => rfl) (fun _ hr => (of_decide_eq_true hr).1) hc
    simp only [ConversationCall.exec, ConversationRepository.unsubscribe]
    split
    · exact hrows
    · exact hrows
  | _ => rw [ConversationCall.exec_subscriptions rfl]

theorem membershipOf_exec {cfg : ServerConfig} {c : Call} {s : Server}
    (hc : ¬ writesMembership k c) :
    membershipOf k (c.exec cfg s).2.db = membershipOf k s.db := by
  by_cases hconv : ∃ a, c = .conversations a
  · obtain ⟨a, rfl⟩ := hconv
    exact Prod.ext (members_exec hc) (subscriptions_exec hc)
  by_cases hadmin : c.isAdmin
  · cases c with
    | admin a =>
      cases a with | deleteUserRows v =>
      have hframe : _ ∨ _ := Call.exec_frame cfg (.admin (.deleteUserRows v)) s
      rcases hframe with he | he
      · rw [he]
      · have hother : ∀ k' : ConversationId × UserId, decide (k'.2 = v) = true →
            ¬ decide (k' = k) = true := by
          intro k' hv hk
          exact hc ((of_decide_eq_true hv).symm.trans (congrArg Prod.snd (of_decide_eq_true hk)))
        rw [he]
        refine Prod.ext ?_ ?_
        · exact filter_deleteWhere_of_not fun m _ => hother m.key
        · exact filter_deleteWhere_of_not fun r _ => hother r.key
    | _ => cases hadmin
  · obtain ⟨hm, hs⟩ := Call.exec_memberships cfg (s := s) (not_exists.mp hconv) hadmin
    rw [membershipOf, hm, hs]
    rfl

/-- What allows a request to change whether a user belongs to a conversation. -/
inductive MayChange (cfg : ServerConfig) (req : IncomingRequest) (es : List Ev) (ev : Ev) :
    ConversationId × UserId → Prop
  | founder {sess : SessionRecord} {conv : ConversationId} {u : UserId}
      (hsess : SignedIn cfg req sess es) (h : Founded conv sess.userId es) :
      MayChange cfg req es ev (conv, u)
  | manager {sess : SessionRecord} {conv : ConversationId} {u : UserId}
      (hsess : SignedIn cfg req sess es) (h : MayManage conv sess.userId es) :
      MayChange cfg req es ev (conv, u)
  | subscribe {sess : SessionRecord} {conv : ConversationId} {now : Timestamp}
      (hsess : SignedIn cfg req sess es)
      (hcall : ev.call = .conversations (.subscribe conv sess.userId now)) :
      MayChange cfg req es ev (conv, sess.userId)
  | unsubscribe {sess : SessionRecord} {conv : ConversationId} {now : Timestamp}
      (hsess : SignedIn cfg req sess es)
      (hcall : ev.call = .conversations (.unsubscribe conv sess.userId now)) :
      MayChange cfg req es ev (conv, sess.userId)
  | admin {conv : ConversationId} {u : UserId} (hcall : ev.call = .admin (.deleteUserRows u))
      (hset : cfg.adminToken ≠ "") (htoken : req.xAdminToken = some cfg.adminToken) :
      MayChange cfg req es ev (conv, u)

variable {cfg : ServerConfig} {req : IncomingRequest} {draws : Draws} {es : List Ev} {ev : Ev}

theorem not_writesMembership_of_quiet {c : Call} (hc : c.quiet) : ¬ writesMembership k c := by
  intro hw
  unfold writesMembership at hw
  split at hw
  case h_6 => exact hw
  all_goals cases hc

theorem not_writesMembership_of_housekeeping {c : Call} (hc : housekeeping c) :
    ¬ writesMembership k c := by
  unfold housekeeping at hc
  split at hc
  · exact id
  unfold purges at hc
  split at hc
  case h_4 => exact not_writesMembership_of_quiet (Call.quiet_of_reads hc)
  all_goals exact id

theorem mayChange_of_permitted (h : Permitted cfg req draws es ev.call)
    (hw : writesMembership k ev.call) : MayChange cfg req es ev k := by
  generalize hcall : ev.call = c at h hw
  cases h with
  | quiet hc => exact absurd hw (not_writesMembership_of_quiet (Call.quiet_of_reads hc))
  | enters hes h =>
    cases h with
    | quiet hc => exact absurd hw (not_writesMembership_of_quiet (Call.quiet_of_reads hc))
    | _ => exact absurd hw id
  | @acts es₁ es₂ sess _ hes hsess h =>
    subst hes
    have hsess := SignedIn.stable (List.subset_append_left es₁ es₂) hsess
    cases h with
    | quiet hc => exact absurd hw (not_writesMembership_of_quiet hc)
    | foundMember h | foundSubscriber h =>
      obtain rfl : _ = k := hw
      exact .founder hsess (.stable (List.subset_append_right _ _) h)
    | addMember h | removeMember h =>
      obtain rfl : _ = k := hw
      exact .manager hsess (.stable (List.subset_append_right _ _) h)
    | subscribe =>
      obtain rfl : _ = k := hw
      exact .subscribe hsess hcall
    | unsubscribe =>
      obtain rfl : _ = k := hw
      exact .unsubscribe hsess hcall
    | _ => exact absurd hw id
  | deleteUser hset htoken =>
    obtain ⟨conv, u⟩ := k
    obtain rfl : _ = u := hw
    exact .admin hcall hset htoken

/-- In every run of the server, a call that changes whether a user belongs to a conversation, or in
which role, is made by a request that may change it. -/
theorem membership_changes_authorised (cfg : ServerConfig) (init : Server)
    (acts : List NetAct) :
    Always (fun tr ev => ∀ k,
      membershipOf k ((httpServer cfg).post ev).db ≠ membershipOf k ev.pre.db →
        ∃ req draws, opAt (serveHttp cfg init acts) ev.tid = some (.http req draws) ∧
          MayChange cfg req (localTrace ev.tid tr) ev k)
      (serveHttp cfg init acts).trace := by
  refine (permitted_run cfg init acts).imp fun tr ev ⟨o, hop, hperm⟩ k hchanged => ?_
  have hw : writesMembership k ev.call := by
    by_contra hnot
    exact hchanged (membershipOf_exec hnot)
  cases o with
  | http req draws => exact ⟨req, draws, hop, mayChange_of_permitted hperm hw⟩
  | _ =>
    have hquiet := housekeeping_of_permits (by simp) hperm
    exact absurd hw (not_writesMembership_of_housekeeping hquiet)

end Membership

end VoxServer.Conversations
