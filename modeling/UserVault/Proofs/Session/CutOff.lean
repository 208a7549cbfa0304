import UserVault.Proofs.Session.Conversation
import UserVault.Proofs.Vault.Crowd
import UserVault.Proofs.Vault.Ledger

/-!
# Conversations that are cut off

When the input of a session ends or fails inside a message, the session ends with an error and
writes nothing for this message.  All that can be left of it on the disk is the directory of its
user; a store in place also loses the file that it was to replace.
-/

namespace UserVault.Session

open Disk Link Vault Protocol

variable {σ : Type} {b : Backend σ} {state : σ} {input : Source} {output : Sink} {chunk : Nat}
  {m : Message} {cut missing : Bytes}

/-! ## 1. The last round -/

-- A backup whose payload is cut off ends the session, whatever the backend makes of it.
theorem answer_cut (hb : b.Honest) (chunk : Nat) (state : σ) (output : Sink) (user : UInt32)
    (name : Bytes) {payload : Bytes} {length : UInt32}
    (hpayload : payload.length = length.toNat) (hfront : input.front ++ missing = payload)
    (hmissing : missing ≠ []) :
    ∃ e, (answer b chunk user (.backup name length) state input output).result = .error e ∧
      (answer b chunk user (.backup name length) state input output).output = output ∧
      (answer b chunk user (.backup name length) state input output).state =
        (b.store state user name length input).state := by
  have hunread := hb.store_unread state user name length input payload missing [] hpayload
    (by rw [List.append_nil, hfront])
  simp only [answer]
  generalize b.store state user name length input = stored at hunread ⊢
  obtain ⟨result, rest, state'⟩ := stored
  dsimp only at hunread ⊢
  cases result with
  | ok _ =>
    -- a success would have taken the missing bytes too
    obtain ⟨-, hrest, -⟩ := hunread
    rw [Nat.sub_zero, List.drop_length, List.append_nil] at hrest
    exact absurd (List.append_eq_nil_iff.mp hrest).2 hmissing
  | error e =>
    cases e with
    | transport fault => exact ⟨_, rfl, rfl, rfl⟩
    | vault error unread =>
      obtain ⟨hle, hrest, -⟩ := hunread
      rw [List.append_nil] at hrest
      have hlen : (payload.drop (payload.length - unread)).length = unread := by
        rw [List.length_drop]
        omega
      obtain ⟨fault, rest', hskip⟩ := starves_skipPayload _ rest missing hrest hmissing
      rw [hlen] at hskip
      simp only [hskip]
      exact ⟨_, rfl, by trivial, by trivial⟩

/-- What a session does with a message that is cut off after its first byte: it fails to read the
frame, or the frame is there and the backend is given what there is of the payload. -/
inductive CutRound (b : Backend σ) (state : σ) (m : Message) (cut : Bytes) (output : Sink) :
    Round σ → Prop
  | unread (e : FrameError) (rest : Source) (hframe : cut.length < m.frame.length) :
    CutRound b state m cut output (.over (.error e) rest)
  | begun (name : Bytes) (length : UInt32) (rest : Source) (missing : Bytes) (e : FrameError)
    (a : Answered σ) (hrequest : m.request = .backup name length)
    (hframe : m.frame.length ≤ cut.length) (hfront : rest.front ++ missing = m.payload)
    (hmissing : missing ≠ []) (hresult : a.result = .error e) (houtput : a.output = output)
    (hstate : a.state = (b.store state m.user name length rest).state) :
    CutRound b state m cut output (.served a)

theorem round_cut (hb : b.Honest) (chunk : Nat) (state : σ) (output : Sink)
    (hfront : input.front = cut) (hcut : cut ++ missing = m.bytes) (hbegun : cut ≠ [])
    (hmissing : missing ≠ []) :
    CutRound b state m cut output (round b chunk state input output) := by
  rw [Message.bytes] at hcut
  by_cases hframe : cut.length < m.frame.length
  -- the frame itself is cut: what is missing of it comes first in `missing`
  · obtain ⟨short, hshort, hframe'⟩ : ∃ short, short ≠ [] ∧ cut ++ short = m.frame := by
      rcases List.append_eq_append_iff.mp hcut with ⟨short, hshort, -⟩ | ⟨tail, htail, -⟩
      · refine ⟨short, ?_, hshort.symm⟩
        rintro rfl
        rw [hshort, List.append_nil] at hframe
        exact Nat.lt_irrefl _ hframe
      · rw [htail, List.length_append] at hframe
        omega
    obtain ⟨fault, rest, hread⟩ := read_frame_cut (by rw [hfront, hframe']) hshort
      (by rw [hfront]; exact hbegun)
    rw [round, hread]
    exact .unread _ rest hframe
  -- the frame is whole, and `part` of the payload comes after it
  · obtain ⟨part, hpart, hpayload⟩ :
        ∃ part, cut = m.frame ++ part ∧ part ++ missing = m.payload := by
      rcases List.append_eq_append_iff.mp hcut with ⟨short, hshort, hrest⟩ | ⟨tail, htail, hrest⟩
      · have hnil : short = [] := by
          have hlength := congrArg List.length hshort
          rw [List.length_append] at hlength
          exact List.length_eq_zero_iff.mp (by omega)
        subst hnil
        exact ⟨[], by rw [List.append_nil] at hshort ⊢; exact hshort.symm, hrest⟩
      · exact ⟨tail, htail, hrest.symm⟩
    obtain ⟨rest, hread, hrest, -⟩ := reads_message m input part (by rw [hfront, hpart])
    have hlacks : rest.front ++ missing = m.payload := by rw [hrest, hpayload]
    rw [round, hread]
    have hlength := m.payload_length
    cases hrequest : m.request with
    | backup name length =>
      rw [hrequest] at hlength
      obtain ⟨e, hresult, houtput, hstate⟩ :=
        answer_cut hb chunk state output m.user name hlength hlacks hmissing
      exact .begun name length rest missing e _ hrequest (by omega) hlacks hmissing hresult houtput
        hstate
    | restore name | delete name | list | unknown code =>
      -- only backups have a payload that could be cut off
      rw [hrequest] at hlength
      rw [List.length_eq_zero_iff.mp hlength] at hpayload
      exact absurd (List.append_eq_nil_iff.mp hpayload).2 hmissing

/-! ## 2. What is left on the disk -/

variable {v : Vault} {root : Place} {d₀ d d' : Disk} {s : Vault.State}

/-- The disk after a message of which only `cut` came, if it was `d` before.  A backup under an
accepted name whose frame came in whole leaves the user with a directory, and a store in place is
left without the file. -/
def Leaves (v : Vault) (root : Place) (m : Message) (cut : Bytes) (d d' : Disk) : Prop :=
  match m.request with
  | .backup name _ =>
    if accepts name ∧ m.frame.length ≤ cut.length then
      if v.options.atomic then SubtreeKept root (fun _ => False) (withFolder d root m.user) d'
      else SubtreeKept root (· = .file m.user name) (withFolder d root m.user) d' ∧
        d'.node? (Spot.under (.file m.user name) root) = none
    else d' = d
  | _ => d' = d

-- Nothing of a file on its way in is left.
theorem Leaves.staged (h : Leaves v root m cut d d') (number : Nat) :
    d'.node? (Spot.under (.staged number) root) = d.node? (Spot.under (.staged number) root) := by
  unfold Leaves at h
  split at h
  next name length hrequest =>
    have hfolder := (spotsKept_withFolder d root m.user).node (.staged number) (by simp)
    split at h
    · split at h
      · exact (h _ (isBelow_under _ root) (fun _ hfalse => hfalse.elim)).1.trans hfolder
      · refine (h.1 _ (isBelow_under _ root) ?_).1.trans hfolder
        rintro spot rfl heq
        cases Spot.under_injective heq
    · rw [h]
  next => rw [h]

/-- A store of a payload that is cut off leaves nothing of it. -/
theorem store_cut (hbase : EmptyBase v d₀ root) (h : Orderly v root d₀ s.disk) {user : UInt32}
    {name payload : Bytes} (hname : accepts name) {length : UInt32} {body : Source}
    (hlength : payload.length = length.toNat) (hfront : body.front ++ missing = payload)
    (hmissing : missing ≠ []) :
    if v.options.atomic then
      SubtreeKept root (fun _ => False) (withFolder s.disk root user)
        (v.store s user name length body).state.disk
    else SubtreeKept root (· = .file user name) (withFolder s.disk root user)
        (v.store s user name length body).state.disk ∧
      (v.store s user name length body).state.disk.node?
        (Spot.under (.file user name) root) = none := by
  have hfront' : body.front ++ missing = payload ++ [] := by rw [List.append_nil, hfront]
  have hunread := storeWith_unread v (fun _ => none) s user name hlength hfront'
  rw [← store] at hunread
  obtain ⟨htree, hends⟩ := store_ends user hbase h hname hlength hfront'
  have hfolder := orderly_withFolder hbase h user
  generalize v.store s user name length body = stored at htree hends hunread ⊢
  obtain ⟨result, rest, state⟩ := stored
  dsimp only at htree hends hunread ⊢
  generalize state.disk = d' at htree hends ⊢
  -- of the ways in which a store ends, a success is out of the question
  cases hends with
  | stored _ hkept id hnode hcontent =>
    obtain ⟨-, hrest, -⟩ := hunread
    rw [Nat.sub_zero, List.drop_length, List.append_nil] at hrest
    exact absurd (List.append_eq_nil_iff.mp hrest).2 hmissing
  | refused error _ hatomic hwhy hkept =>
    rw [if_pos hatomic]
    exact hkept.subtreeKept hfolder htree
  | lost fault _ hatomic hkept hnone =>
    rw [if_neg (by rw [hatomic]; exact Bool.false_ne_true)]
    exact ⟨hkept.subtreeKept hfolder htree, hnone⟩

theorem leaves_cutRound (hbase : EmptyBase v d₀ root) (h : Orderly v root d₀ s.disk)
    {a : Answered Vault.State} (hround : CutRound (.ofVault v) s m cut output (.served a)) :
    Leaves v root m cut s.disk a.state.disk := by
  cases hround with
  | begun name length rest missing e a hrequest hframe hfront hmissing hresult houtput hstate =>
    have hlength : m.payload.length = length.toNat := by
      rw [m.payload_length, hrequest]
      rfl
    have hstate' : a.state = (v.store s m.user name length rest).state := hstate
    rw [Leaves, hrequest, hstate']
    dsimp only
    by_cases hname : accepts name
    · rw [if_pos ⟨hname, hframe⟩]
      exact store_cut hbase h hname hlength hfront hmissing
    · rw [if_neg (fun hand => hname hand.1),
        (store_of_not_accepts v s m.user hname length rest).2.1]

/-! ## 3. Whole messages -/

/-- Carrying a message out keeps the tree orderly and leaves no file on its way in. -/
theorem orderly_carryOut (hbase : EmptyBase v d₀ root) (h : Orderly v root d₀ s.disk)
    (m : Message) :
    Orderly v root d₀ ((Backend.ofVault v).carryOut s m).2.disk ∧
      ∀ number, ((Backend.ofVault v).carryOut s m).2.disk.node? (Spot.under (.staged number) root) =
        s.disk.node? (Spot.under (.staged number) root) := by
  have hlength := m.payload_length
  cases hrequest : m.request with
  | backup name length =>
    rw [hrequest] at hlength
    simp only [Backend.carryOut, Backend.ofVault, hrequest]
    by_cases hname : accepts name
    · have hfront : (Source.ofBytes m.payload).front ++ [] = m.payload ++ [] := by
        rw [Source.front_ofBytes]
      obtain ⟨htree, hends⟩ := store_ends m.user hbase h hname hlength hfront
      refine ⟨htree, fun number => ?_⟩
      have hstaged := (spotsKept_withFolder s.disk root m.user).node (.staged number) (by simp)
      -- however the store ends, it touches the user's directory and file only
      generalize (v.store s m.user name length (.ofBytes m.payload)).result = result at hends
      cases hends with
      | stored _ hkept => exact (hkept.node _ (by simp)).trans hstaged
      | refused _ _ _ _ hkept => exact (hkept.node _ (by simp)).trans hstaged
      | lost _ _ _ hkept => exact (hkept.node _ (by simp)).trans hstaged
    · rw [(store_of_not_accepts v s m.user hname length _).2.1]
      exact ⟨h, fun _ => rfl⟩
  | delete name =>
    simp only [Backend.carryOut, Backend.ofVault, hrequest]
    by_cases hname : accepts name
    · have hdisk := (remove_eq m.user hbase h hname).2
      rw [hdisk]
      exact ⟨orderly_clear h (.inr ⟨m.user, name, rfl⟩),
        fun number => (spotsKept_clear s.disk root _).node _ (by simp)⟩
    · rw [(remove_of_not_accepts v s m.user hname).2]
      exact ⟨h, fun _ => rfl⟩
  | restore name =>
    simp only [Backend.carryOut, Backend.ofVault, hrequest]
    split <;> exact ⟨h, fun _ => rfl⟩
  | list | unknown =>
    simp only [Backend.carryOut, Backend.ofVault, hrequest]
    exact ⟨h, by simp⟩

theorem orderly_after (hbase : EmptyBase v d₀ root) (h : Orderly v root d₀ s.disk)
    (ms : List Message) :
    Orderly v root d₀ ((Backend.ofVault v).after s ms).disk ∧
      ∀ number, ((Backend.ofVault v).after s ms).disk.node? (Spot.under (.staged number) root) =
        s.disk.node? (Spot.under (.staged number) root) := by
  induction ms generalizing s with
  | nil => exact ⟨h, fun _ => rfl⟩
  | cons m ms ih =>
    obtain ⟨htree, hstaged⟩ := orderly_carryOut hbase h m
    obtain ⟨htree', hstaged'⟩ := ih htree
    exact ⟨htree', fun number => (hstaged' number).trans (hstaged number)⟩

/-! ## 4. Sessions that are cut off -/

/-- A session that begins with a message that is cut off writes nothing and ends with an error. -/
theorem converse_cut (hbase : EmptyBase v d₀ root) (h : Orderly v root d₀ s.disk) (chunk : Nat)
    (hfront : input.front = cut) (hcut : cut ++ missing = m.bytes) (hbegun : cut ≠ [])
    (hmissing : missing ≠ []) (hnew : output.bytes = []) :
    (∃ e, (converse (.ofVault v) chunk s input output).ending = .error e) ∧
      (converse (.ofVault v) chunk s input output).written = [] ∧
      Leaves v root m cut s.disk (converse (.ofVault v) chunk s input output).state.disk := by
  have hround := round_cut (honest_ofVault v) chunk s output hfront hcut hbegun hmissing
  rw [converse_eq]
  generalize round (.ofVault v) chunk s input output = r at hround ⊢
  cases hround with
  | unread e rest hframe =>
    refine ⟨⟨e, rfl⟩, rfl, ?_⟩
    unfold Leaves
    split
    next name length hrequest =>
      rw [if_neg fun hand => absurd hand.2 (by omega)]
    next => rfl
  | begun name length rest missing e a hrequest hframe hlacks hmissing hresult houtput hstate =>
    have hround : CutRound (.ofVault v) s m cut output (.served a) :=
      .begun name length rest missing e a hrequest hframe hlacks hmissing hresult houtput hstate
    have hleaves := leaves_cutRound hbase h hround
    dsimp only
    rw [hresult]
    refine ⟨⟨e, rfl⟩, ?_, hleaves⟩
    simp [Transcript.written, Answered.exchange, houtput, hnew]

theorem written_eq {t : Transcript σ} {replies : List Reply} {later : Transcript σ}
    (h : t.exchanges.map (·.reply) = replies.map Reply.encode ++ later.exchanges.map (·.reply)) :
    t.written = replies.flatMap Reply.encode ++ later.written := by
  rw [Transcript.written, List.flatMap_def, h, List.flatten_append, Transcript.written,
    List.flatMap_def, List.flatMap_def]

/-- Whatever state a vault has come to, a session that gets some messages and then only a part of
one more answers just the whole messages and ends with an error.  No file on its way in is left,
and the disk is as after the whole messages, but for the user's directory that a begun backup needs
and, where files are not written aside, the file that it was to replace.  Where the input ends or
fails between two messages, the session ends as its input does, and there is no difference.

The session is alone from its first request on.  If others have come to a halt in the state that it
starts from and one of them holds the lock of a path, the session takes the lock over, where in
company it would wait. -/
theorem converse_cut_off (hbase : EmptyBase v d₀ root) (hs : Reachable v d₀ s) (ms : List Message)
    (hsent : input.front = ms.flatMap Message.bytes ++ cut) (hcut : cut ++ missing = m.bytes)
    (hmissing : missing ≠ []) (hout : output.Willing) (hnew : output.bytes = []) :
    (converse (.ofVault v) v.chunkSize s input output).written =
        ((Backend.ofVault v).replies s ms).flatMap Reply.encode ∧
      (∀ number, (converse (.ofVault v) v.chunkSize s input output).state.disk.node?
          (Spot.under (.staged number) root) = s.disk.node? (Spot.under (.staged number) root)) ∧
      (cut ≠ [] → (∃ e, (converse (.ofVault v) v.chunkSize s input output).ending = .error e) ∧
        Leaves v root m cut ((Backend.ofVault v).after s ms).disk
          (converse (.ofVault v) v.chunkSize s input output).state.disk) ∧
      (cut = [] → (converse (.ofVault v) v.chunkSize s input output).ending =
          (match input.barrier with
            | none => .ok ()
            | some kind => .error (.transport (.raised kind))) ∧
        (converse (.ofVault v) v.chunkSize s input output).state =
          (Backend.ofVault v).after s ms) := by
  obtain ⟨htree, hstaged⟩ := orderly_after hbase (hs.orderly hbase) ms
  obtain ⟨input', output', hfront', hbarrier, hout', hnew', hexchanges, hending, hstate⟩ :=
    converse_messages (honest_ofVault v) v.chunkSize s ms hsent hout hnew
  rw [written_eq hexchanges, hending, hstate]
  -- between two messages the session ends as its input does; within one it cannot go on
  by_cases hbegun : cut = []
  · obtain ⟨rest, hround⟩ := round_nil (.ofVault v) v.chunkSize ((Backend.ofVault v).after s ms)
      output' (hfront'.trans hbegun)
    rw [converse_eq, hround, hbarrier]
    refine ⟨List.append_nil _, hstaged, fun hne => absurd hbegun hne, fun _ => ⟨rfl, rfl⟩⟩
  · obtain ⟨herror, hwritten, hleaves⟩ := converse_cut hbase htree v.chunkSize hfront' hcut hbegun
      hmissing hnew'
    refine ⟨by rw [hwritten, List.append_nil], fun number => ?_, fun _ => ⟨herror, hleaves⟩,
      fun hnil => absurd hnil hbegun⟩
    -- files on their way in were there before: they are other stores' files
    rw [← hstaged number]
    exact hleaves.staged number

/-- A backup of three bytes of which one comes, after an unknown request, in a vault in which
another store is under way. -/
theorem converse_cut_off_backup :
    let v : Vault := { base := { absolute := true, steps := [] } }
    let s : Vault.State := (Crowd.run v (Crowd.start v {})
      (.store 0 ⟨7, [0x61], 1, .ofBytes [0]⟩ :: List.replicate 3 (.advanceStore 0 none))).state
    let ms : List Message := [⟨7, 1, .unknown 0, [], by decide, rfl, by simp; decide⟩]
    let m : Message := ⟨7, 1, .backup [0x61] 3, [1, 2, 3], by decide, rfl, by simp⟩
    let input : Source := .ofBytes (ms.flatMap Message.bytes ++ (m.frame ++ [1]))
    (converse (.ofVault v) v.chunkSize s input {}).written =
        ((Backend.ofVault v).replies s ms).flatMap Reply.encode ∧
      (∀ number, (converse (.ofVault v) v.chunkSize s input {}).state.disk.node?
          (Spot.under (.staged number) []) = s.disk.node? (Spot.under (.staged number) [])) ∧
      (m.frame ++ [1] ≠ [] →
        (∃ e, (converse (.ofVault v) v.chunkSize s input {}).ending = .error e) ∧
        Leaves v [] m (m.frame ++ [1]) ((Backend.ofVault v).after s ms).disk
          (converse (.ofVault v) v.chunkSize s input {}).state.disk) ∧
      (m.frame ++ [1] = [] → (converse (.ofVault v) v.chunkSize s input {}).ending =
          (match input.barrier with
            | none => .ok ()
            | some kind => .error (.transport (.raised kind))) ∧
        (converse (.ofVault v) v.chunkSize s input {}).state =
          (Backend.ofVault v).after s ms) := by
  intro v s ms m input
  have hsent : input.front = ms.flatMap Message.bytes ++ (m.frame ++ [1]) := Source.front_ofBytes _
  have hcut : (m.frame ++ [1]) ++ [2, 3] = m.bytes := by
    rw [Message.bytes, List.append_assoc]
    rfl
  exact converse_cut_off (emptyBase_root v.options) ⟨_, rfl⟩ ms hsent hcut (by simp)
    ⟨rfl, by decide, rfl⟩ rfl

end UserVault.Session
