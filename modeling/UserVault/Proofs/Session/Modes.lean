import UserVault.Proofs.Session.LostReplies
import UserVault.Proofs.Vault.Matching

/-!
# Sessions of vaults that cannot be told apart

Vaults that share a directory answer whole messages with the same replies and leave trees that look
the same after each, be the files written in place or aside, as long as permissions forbid nothing.
-/

namespace UserVault.Session

open Disk Link Vault Protocol

/-! ## 1. Messages -/

section
variable {v v' : Vault} {root : Place} {s s' : Vault.State} (hbase : v'.base = v.base)
include hbase

/-- A message comes to the same on both sides, as far as its reply tells. -/
theorem carryOut_matched (h : Matched v v' root s.disk s'.disk) (m : Message) :
    ((Backend.ofVault v').carryOut s' m).1.reply m.request.name =
        ((Backend.ofVault v).carryOut s m).1.reply m.request.name ∧
      Matched v v' root ((Backend.ofVault v).carryOut s m).2.disk
        ((Backend.ofVault v').carryOut s' m).2.disk ∧
      SameAside root s.disk ((Backend.ofVault v).carryOut s m).2.disk := by
  obtain ⟨user, version, request, payload, hname, hpayload, hunknown⟩ := m
  cases request with
  | backup name length =>
    obtain ⟨hresult, hmatched⟩ := h.store hbase user name hpayload
    simp only [Backend.carryOut, Backend.ofVault]
    refine ⟨?_, hmatched⟩
    -- the errors may differ, but a reply does not tell errors apart
    cases hleft : (v.store s user name length (.ofBytes payload)).result <;>
      cases hright : (v'.store s' user name length (.ofBytes payload)).result <;>
      rw [hleft, hright] at hresult <;> first | rfl | cases hresult
  | restore name =>
    have hretrieve := h.retrieve hbase user name
    have hcontent (v : Vault) (s : Vault.State) :
        ((Backend.ofVault v).retrieve s user name).1.map (fun file => file.2.bytes) =
          (v.retrieve s.disk user name).map fun opened => (s.disk.contentOf opened.file).bytes := by
      simp only [Backend.ofVault]
      cases v.retrieve s.disk user name with
      | error e => rfl
      | ok opened => simp [Except.map, Source.bytes, Source.ofBytes]
    have hstate (v : Vault) (s : Vault.State) :
        ((Backend.ofVault v).retrieve s user name).2 = s := by
      simp only [Backend.ofVault]
      cases v.retrieve s.disk user name <;> rfl
    simp only [Backend.carryOut, hcontent, hstate, hretrieve]
    exact ⟨trivial, h, fun _ => rfl⟩
  | delete name =>
    obtain ⟨hresult, hmatched⟩ := h.remove hbase user name
    simp only [Backend.carryOut, Backend.ofVault, hresult]
    exact ⟨trivial, hmatched⟩
  | list =>
    simp only [Backend.carryOut, Backend.ofVault, h.list hbase]
    exact ⟨trivial, h, fun _ => rfl⟩
  | unknown operation => exact ⟨rfl, h, fun _ => rfl⟩

theorem replies_matched (h : Matched v v' root s.disk s'.disk) (ms : List Message) :
    (Backend.ofVault v').replies s' ms = (Backend.ofVault v).replies s ms ∧
      Matched v v' root ((Backend.ofVault v).after s ms).disk
        ((Backend.ofVault v').after s' ms).disk ∧
      SameAside root s.disk ((Backend.ofVault v).after s ms).disk := by
  induction ms generalizing s s' with
  | nil => exact ⟨rfl, h, fun _ => rfl⟩
  | cons m ms ih =>
    obtain ⟨hreply, hmatched, haside⟩ := carryOut_matched hbase h m
    obtain ⟨hreplies, hafter, haside'⟩ := ih hmatched
    refine ⟨?_, hafter, haside.trans haside'⟩
    simp only [Backend.replies, Backend.outcomes, List.zipWith_cons_cons] at hreplies ⊢
    rw [hreply, hreplies]

end

/-! ## 2. Between the messages -/

section
variable {σ : Type} {b : Backend σ} {state : σ} {input : Source} {output : Sink}

/-- What is left of the input after the first `count` requests. -/
def inputAfter (b : Backend σ) (chunk : Nat) : (count : Nat) → σ → Source → Sink → Source
  | 0, _, input, _ => input
  | count + 1, state, input, output =>
    match round b chunk state input output with
    | .over _ input => input
    | .served a =>
      match a.result with
      | .error _ => a.input
      | .ok () => inputAfter b chunk count a.state a.input a.output.forget

/-- After so many messages, these have been carried out, and the others are still to be read. -/
theorem stands_after (hb : b.Honest) (chunk : Nat) (state : σ) {ms : List Message}
    (hfront : input.front = ms.flatMap Message.bytes) (hout : output.Willing) {count : Nat}
    (hcount : count ≤ ms.length) :
    stateAfter b chunk count state input output = b.after state (ms.take count) ∧
      (inputAfter b chunk count state input output).front =
        (ms.drop count).flatMap Message.bytes := by
  induction count generalizing state input output ms with
  | zero => exact ⟨rfl, hfront⟩
  | succ count ih =>
    cases ms with
    | nil => exact absurd hcount (Nat.not_succ_le_zero _)
    | cons m ms =>
      rw [List.flatMap_cons] at hfront
      obtain ⟨a, hround, ha⟩ := round_message hb chunk state hout hfront
      rw [List.length_cons] at hcount
      obtain ⟨hstate, hinput⟩ :=
        ih a.state ha.front ha.willing.forget (Nat.le_of_succ_le_succ hcount)
      rw [stateAfter_succ hround ha.result, hstate, ha.state, inputAfter, hround]
      simp only [ha.result]
      exact ⟨rfl, hinput⟩

/-- A session of whole messages writes their replies and ends well. -/
theorem converse_whole (hb : b.Honest) (chunk : Nat) (state : σ) {ms : List Message}
    (hsent : input.front = ms.flatMap Message.bytes) (hend : input.barrier = none)
    (hout : output.Willing) (hnew : output.bytes = []) :
    (converse b chunk state input output).exchanges.map (·.reply) =
        (b.replies state ms).map Reply.encode ∧
      (converse b chunk state input output).written = (b.replies state ms).flatMap Reply.encode ∧
      (converse b chunk state input output).ending = .ok () := by
  have hsent' : input.front = ms.flatMap Message.bytes ++ [] := by rw [List.append_nil, hsent]
  obtain ⟨input', output', hfront, hbarrier, -, -, hexchanges, hending, -⟩ :=
    converse_messages hb chunk state ms hsent' hout hnew
  obtain ⟨hexchanges', hending', -⟩ :=
    converse_nil b chunk (b.after state ms) output' hfront (hbarrier.trans hend)
  rw [hexchanges', List.map_nil, List.append_nil] at hexchanges
  refine ⟨hexchanges, ?_, hending.trans hending'⟩
  rw [Transcript.written, List.flatMap_def, hexchanges, List.flatMap_def]

end

/-! ## 3. Sessions -/

/-- Two vaults in the same directory, one of which may write in place and the other aside, are sent
the same whole messages.  Where permissions forbid nothing and there is room for one more file
aside, they write the same replies, and after each message they have read the same input, the trees
look the same, and as many files stand aside as before the session. -/
theorem converse_modes {v v' : Vault} {root : Place} {s : Vault.State} {input input' : Source}
    {output output' : Sink} (hbase : v'.base = v.base) (h : Unhindered v root s.disk)
    (hroom : Roomy v root s.disk) (ms : List Message)
    (hsent : input.front = ms.flatMap Message.bytes) (hend : input.barrier = none)
    (hsent' : input'.front = ms.flatMap Message.bytes) (hend' : input'.barrier = none)
    (hout : output.Willing) (hnew : output.bytes = []) (hout' : output'.Willing)
    (hnew' : output'.bytes = []) :
    let t := converse (.ofVault v) v.chunkSize s input output
    let t' := converse (.ofVault v') v'.chunkSize s input' output'
    t'.exchanges.map (·.reply) = t.exchanges.map (·.reply) ∧ t'.written = t.written ∧
      t.ending = .ok () ∧ t'.ending = .ok () ∧
      ∀ count ≤ ms.length,
        let here := stateAfter (.ofVault v) v.chunkSize count s input output
        let there := stateAfter (.ofVault v') v'.chunkSize count s input' output'
        (inputAfter (.ofVault v) v.chunkSize count s input output).front =
            (ms.drop count).flatMap Message.bytes ∧
          (inputAfter (.ofVault v') v'.chunkSize count s input' output').front =
            (ms.drop count).flatMap Message.bytes ∧
          SameTree here.disk there.disk ∧ stagedCount root here.disk = stagedCount root s.disk ∧
          stagedCount root there.disk = stagedCount root s.disk := by
  intro t t'
  have hmatched := matched_refl hbase h hroom
  obtain ⟨hexchanges, hwritten, hending⟩ :=
    converse_whole (honest_ofVault v) v.chunkSize s hsent hend hout hnew
  obtain ⟨hexchanges', hwritten', hending'⟩ :=
    converse_whole (honest_ofVault v') v'.chunkSize s hsent' hend' hout' hnew'
  obtain ⟨hreplies, -⟩ := replies_matched hbase hmatched ms
  refine ⟨?_, ?_, hending, hending', fun count hcount => ?_⟩
  · rw [hexchanges, hexchanges', hreplies]
  · rw [hwritten, hwritten', hreplies]
  · intro here there
    obtain ⟨hhere, hleft⟩ := stands_after (honest_ofVault v) v.chunkSize s hsent hout hcount
    obtain ⟨hthere, hright⟩ := stands_after (honest_ofVault v') v'.chunkSize s hsent' hout' hcount
    obtain ⟨-, hafter, haside⟩ := replies_matched hbase hmatched (ms.take count)
    rw [← hhere, ← hthere] at hafter
    rw [← hhere] at haside
    have hcountHere := h.ground.stagedCount_eq hafter.left.ground fun name =>
      shapeAt?_congr (haside name)
    have hcountThere := hafter.left.ground.stagedCount_eq hafter.right.ground fun _ =>
      hafter.tree.shape _
    exact ⟨hleft, hright, hafter.tree, hcountHere, hcountThere.trans hcountHere⟩

/-- A file is stored over another one, under the name of a directory, and for a user who has a file
where the directory should be; then it is restored. -/
theorem converse_modes_obstructed :
    let v : Vault := { base := { absolute := true, steps := [] } }
    let v' : Vault := { v with options := { atomic := false, chunkSize := 1 } }
    let folder := Spot.under (.folder 7) []
    let s : Vault.State := {
      disk := {
        nodes := ⟨[(folder ++ [[0x61]], .file 0), (folder ++ [[0x62]], .directory 0o755),
          (folder, .directory 0o755), (Spot.under (.folder 8) [], .file 1),
          (Spot.under .staging [], .directory 0o755)]⟩
        files := ⟨[(0, { content := .ofBytes [5, 6], mode := 0o644 }), (1, { mode := 0o644 })]⟩
        nextFile := 2
        bound := true } }
    let ms : List Message :=
      [⟨7, 1, .backup [0x61] 2, [1, 2], by decide, rfl, by simp⟩,
        ⟨7, 1, .backup [0x62] 2, [1, 2], by decide, rfl, by simp⟩,
        ⟨8, 1, .backup [0x61] 2, [1, 2], by decide, rfl, by simp⟩,
        ⟨7, 1, .restore [0x61], [], by decide, rfl, by simp⟩]
    let input : Source := .ofBytes (ms.flatMap Message.bytes)
    let t := converse (.ofVault v) v.chunkSize s input {}
    let t' := converse (.ofVault v') v'.chunkSize s input {}
    t'.exchanges.map (·.reply) = t.exchanges.map (·.reply) ∧ t'.written = t.written ∧
      t.ending = .ok () ∧ t'.ending = .ok () ∧
      ∀ count ≤ ms.length,
        let here := stateAfter (.ofVault v) v.chunkSize count s input {}
        let there := stateAfter (.ofVault v') v'.chunkSize count s input {}
        (inputAfter (.ofVault v) v.chunkSize count s input {}).front =
            (ms.drop count).flatMap Message.bytes ∧
          (inputAfter (.ofVault v') v'.chunkSize count s input {}).front =
            (ms.drop count).flatMap Message.bytes ∧
          SameTree here.disk there.disk ∧ stagedCount [] here.disk = stagedCount [] s.disk ∧
          stagedCount [] there.disk = stagedCount [] s.disk := by
  intro v v' folder s ms input
  have hground : Grounded v [] s.disk :=
    .of_entries ⟨0o755, by decide⟩ (by decide +kernel) (by decide +kernel)
  have hfresh : ∀ access, access ≠ .search → s.disk.allows (s.disk.grant 0o666) access := by
    intro access
    cases access <;> decide
  have hopen : Unhindered v [] s.disk :=
    .of_entries hground (.of_entries (by decide +kernel)) (by decide +kernel) hfresh
      ⟨0o755, by decide +kernel, by decide⟩
  have hroom : Roomy v [] s.disk :=
    ⟨0, by decide +kernel, fun htaken => htaken (by decide +kernel)⟩
  have hsent : input.front = ms.flatMap Message.bytes := Source.front_ofBytes _
  have hout : Sink.Willing {} := ⟨rfl, by decide, rfl⟩
  have hbase : v'.base = v.base := rfl
  exact converse_modes hbase hopen hroom ms hsent rfl hsent rfl hout rfl hout rfl

/-- A file that the process may not write to can still be replaced: the vault that writes aside
succeeds where the vault that writes in place fails. -/
theorem modes_differ_unwritable :
    let v : Vault := { base := { absolute := true, steps := [] } }
    let v' : Vault := { v with options := { atomic := false } }
    let folder := Spot.under (.folder 7) []
    let s : Vault.State := {
      disk := {
        nodes := ⟨[(folder ++ [[0x61]], .file 0), (folder, .directory 0o755),
          (Spot.under .staging [], .directory 0o755)]⟩
        files := ⟨[(0, { content := .ofBytes [0x78], mode := 0o444 })]⟩
        nextFile := 1
        bound := true } }
    let ms : List Message := [⟨7, 1, .backup [0x61] 1, [0x79], by decide, rfl, by simp⟩]
    let input : Source := .ofBytes (ms.flatMap Message.bytes)
    Grounded v [] s.disk ∧
      (converse (.ofVault v') v'.chunkSize s input {}).written ≠
        (converse (.ofVault v) v.chunkSize s input {}).written ∧
      ¬SameTree (stateAfter (.ofVault v) v.chunkSize 1 s input {}).disk
        (stateAfter (.ofVault v') v'.chunkSize 1 s input {}).disk := by
  intro v v' folder s ms input
  have hsent : input.front = ms.flatMap Message.bytes := Source.front_ofBytes _
  have hout : Sink.Willing {} := ⟨rfl, by decide, rfl⟩
  refine ⟨.of_entries ⟨0o755, by decide⟩ (by decide +kernel) (by decide +kernel), ?_, ?_⟩
  · obtain ⟨-, haside, -⟩ := converse_whole (honest_ofVault v) v.chunkSize s hsent rfl hout rfl
    obtain ⟨-, hinPlace, -⟩ := converse_whole (honest_ofVault v') v'.chunkSize s hsent rfl hout rfl
    rw [haside, hinPlace]
    decide +kernel
  · obtain ⟨haside, -⟩ := stands_after (honest_ofVault v) v.chunkSize s hsent hout
      (Nat.le_refl 1)
    obtain ⟨hinPlace, -⟩ := stands_after (honest_ofVault v') v'.chunkSize s hsent hout
      (Nat.le_refl 1)
    rw [haside, hinPlace]
    intro hsame
    have hentry := hsame (folder ++ [[0x61]])
    revert hentry
    decide +kernel

end UserVault.Session
