import Mathlib.Logic.Function.Basic
import UserVault.Proofs.Session.Conversation
import UserVault.Proofs.Vault.Ledger

/-!
# Requests over many connections

A service that handles one request after the other, whichever connections they come over, answers
each of them as a ledger of the files says, and its tree stays the tree of the ledger.
-/

namespace UserVault.Vault.Ledger

open Protocol

/-! ## 1. What a ledger says -/

/-- The ledger after a message. -/
def after (l : Ledger) (m : Message) : Ledger :=
  match m.request with
  | .backup name _ => if accepts name then l.set (m.user, name) m.payload else l
  | .delete name => if accepts name then l.erase (m.user, name) else l
  | .restore _ | .list | .unknown _ => l

/-- The reply to a message. -/
def reply (l : Ledger) (m : Message) : Reply :=
  match m.request with
  | .backup name _ | .delete name => .named (if accepts name then .done else .failed) name
  | .restore name =>
    if accepts name then
      match l.get? (m.user, name) with
      | some content => .streamed .restored name content
      | none => .named .noFile name
    else .named .failed name
  | .list =>
    match l.names m.user with
    | [] => .bare .noFiles
    | names =>
      let text := listingText names
      if text.length < UInt32.size then .streamed .listed [] text else .named .failed []
  | .unknown _ => .named .failed []

end UserVault.Vault.Ledger

namespace UserVault.Session

open Disk Link Vault Protocol

variable {v : Vault} {root : Place} {d₀ : Disk} {s : Vault.State} {l : Ledger} {m : Message}

/-! ## 2. One message -/

theorem agrees_backup (hbase : EmptyBase v d₀ root) (h : Agrees v root d₀ s.disk l) {name : Bytes}
    {length : UInt32} (hrequest : m.request = .backup name length) :
    Agrees v root d₀ ((Backend.ofVault v).carryOut s m).2.disk (l.after m) ∧
      ((Backend.ofVault v).carryOut s m).1.reply m.request.name = l.reply m := by
  -- the payload is all there, so the length field tells the truth about it
  have hlength : m.payload.length = length.toNat := by
    rw [m.payload_length, hrequest]
    rfl
  simp only [Backend.carryOut, Backend.ofVault, Ledger.after, Ledger.reply, hrequest]
  by_cases hname : accepts name
  · have hfront : (Source.ofBytes m.payload).front = m.payload ++ [] := by
      rw [Source.front_ofBytes, List.append_nil]
    obtain ⟨hresult, hkept, id, hnode, hcontent⟩ := store_whole m.user hbase h.orderly
      hname hlength hfront h.clear
    have hfront' : (Source.ofBytes m.payload).front ++ [] = m.payload ++ [] := by
      rw [Source.front_ofBytes]
    have htree := (store_ends m.user hbase h.orderly hname hlength hfront').1
    have hshort : m.payload.length < UInt32.size := by
      rw [hlength]
      exact length.toNat_lt
    rw [if_pos hname, if_pos hname, hresult]
    exact ⟨h.store htree hkept hnode hcontent hshort, rfl⟩
  · obtain ⟨⟨fault, hresult⟩, hstate, -⟩ :=
      store_of_not_accepts v s m.user hname length (.ofBytes m.payload)
    rw [if_neg hname, if_neg hname, hresult, hstate]
    exact ⟨h, rfl⟩

theorem agrees_restore (hbase : EmptyBase v d₀ root) (h : Agrees v root d₀ s.disk l) {name : Bytes}
    (hrequest : m.request = .restore name) :
    Agrees v root d₀ ((Backend.ofVault v).carryOut s m).2.disk (l.after m) ∧
      ((Backend.ofVault v).carryOut s m).1.reply m.request.name = l.reply m := by
  simp only [Backend.carryOut, Backend.ofVault, Ledger.after, Ledger.reply, hrequest]
  by_cases hname : accepts name
  · have hretrieve := h.retrieve hbase m.user hname
    rw [if_pos hname]
    cases hget : l.get? (m.user, name) with
    | some content =>
      rw [hget] at hretrieve
      obtain ⟨file, hfile, -, hcontent⟩ := hretrieve
      rw [hfile]
      refine ⟨h, ?_⟩
      simp [Outcome.reply, Outcome.status, Status.shape, Outcome.content, Except.map,
        Source.bytes, Source.ofBytes, hcontent, Request.name]
    | none =>
      rw [hget] at hretrieve
      rw [hretrieve]
      exact ⟨h, rfl⟩
  · obtain ⟨fault, hresolve⟩ := resolve_of_not_accepts v m.user hname
    have hretrieve : v.retrieve s.disk m.user name = .error (.invalidName fault) := by
      rw [Vault.retrieve, hresolve]
    simp only [hretrieve]
    rw [if_neg hname]
    exact ⟨h, rfl⟩

theorem agrees_delete (hbase : EmptyBase v d₀ root) (h : Agrees v root d₀ s.disk l) {name : Bytes}
    (hrequest : m.request = .delete name) :
    Agrees v root d₀ ((Backend.ofVault v).carryOut s m).2.disk (l.after m) ∧
      ((Backend.ofVault v).carryOut s m).1.reply m.request.name = l.reply m := by
  simp only [Backend.carryOut, Backend.ofVault, Ledger.after, Ledger.reply, hrequest]
  by_cases hname : accepts name
  · obtain ⟨⟨removed, hresult⟩, hdisk⟩ := remove_eq m.user hbase h.orderly hname
    rw [if_pos hname, if_pos hname, hresult, hdisk]
    exact ⟨h.remove m.user name, rfl⟩
  · obtain ⟨⟨fault, hresult⟩, hstate⟩ := remove_of_not_accepts v s m.user hname
    rw [if_neg hname, if_neg hname, hresult, hstate]
    exact ⟨h, rfl⟩

theorem agrees_list (hbase : EmptyBase v d₀ root) (h : Agrees v root d₀ s.disk l)
    (hrequest : m.request = .list) :
    Agrees v root d₀ ((Backend.ofVault v).carryOut s m).2.disk (l.after m) ∧
      ((Backend.ofVault v).carryOut s m).1.reply m.request.name = l.reply m := by
  simp only [Backend.carryOut, Backend.ofVault, Ledger.after, Ledger.reply, hrequest,
    h.list hbase m.user, Ledger.list]
  refine ⟨h, ?_⟩
  cases l.names m.user with
  | nil => rfl
  | cons first rest =>
    by_cases hsize : (listingText (first :: rest)).length < UInt32.size
    · simp [Outcome.reply, Outcome.status, Status.shape, Outcome.content, hsize, Request.name]
    · simp [Outcome.reply, Outcome.status, Status.shape, hsize, Request.name]

/-- Carrying a message out does to the tree what the ledger says, and comes to the reply that the
ledger gives. -/
theorem agrees_carryOut (hbase : EmptyBase v d₀ root) (h : Agrees v root d₀ s.disk l)
    (m : Message) :
    Agrees v root d₀ ((Backend.ofVault v).carryOut s m).2.disk (l.after m) ∧
      ((Backend.ofVault v).carryOut s m).1.reply m.request.name = l.reply m := by
  cases hrequest : m.request with
  | backup name length => exact hrequest ▸ agrees_backup hbase h hrequest
  | restore name => exact hrequest ▸ agrees_restore hbase h hrequest
  | delete name => exact hrequest ▸ agrees_delete hbase h hrequest
  | list => exact hrequest ▸ agrees_list hbase h hrequest
  | unknown code =>
    simp only [Backend.carryOut, Ledger.after, Ledger.reply, hrequest]
    exact ⟨h, rfl⟩

/-! ## 3. Many connections -/

/-- The connections of a service, and what they share. -/
structure Desk (ι σ : Type) where
  state : σ
  inputs : ι → Source
  outputs : ι → Sink

namespace Desk

variable {ι σ : Type} [DecidableEq ι]

/-- Serves the next request of a connection: one round of the session there.  What is written comes
with the desk after it; there is none if the session has ended. -/
def serve (b : Backend σ) (chunk : Nat) (c : Desk ι σ) (i : ι) : Option (Bytes × Desk ι σ) :=
  match round b chunk c.state (c.inputs i) (c.outputs i) with
  | .served a =>
    match a.result with
    | .ok () => some (a.exchange.reply,
        { state := a.state
          inputs := Function.update c.inputs i a.input
          outputs := Function.update c.outputs i a.output.forget })
    | .error _ => none
  | .over _ _ => none

/-- Serves requests over the connections in the given order.  For each of them there is what was
written and the state after it. -/
def serveAll (b : Backend σ) (chunk : Nat) (c : Desk ι σ) :
    List ι → Option (List (Bytes × σ) × Desk ι σ)
  | [] => some ([], c)
  | i :: order =>
    match c.serve b chunk i with
    | none => none
    | some (written, c') =>
      (serveAll b chunk c' order).map fun (steps, last) => ((written, c'.state) :: steps, last)

/-- Whether every connection takes all that is written to it, and nothing has been written yet. -/
def Open (c : Desk ι σ) : Prop := ∀ i, (c.outputs i).Willing ∧ (c.outputs i).bytes = []

-- The message at the front of a connection's input is answered, and the other connections wait.
theorem serve_message {b : Backend σ} (hb : b.Honest) (chunk : Nat) {c : Desk ι σ} (hopen : c.Open)
    {i : ι} {m : Message} {tail : Bytes} (hfront : (c.inputs i).front = m.bytes ++ tail) :
    ∃ c', c.serve b chunk i = some (((b.carryOut c.state m).1.reply m.request.name).encode, c') ∧
      c'.state = (b.carryOut c.state m).2 ∧ c'.Open ∧ (c'.inputs i).front = tail ∧
      ∀ j, j ≠ i → c'.inputs j = c.inputs j := by
  obtain ⟨hout, hnew⟩ := hopen i
  obtain ⟨a, hround, ha⟩ := round_message hb chunk c.state hout hfront
  -- the output is forgotten between messages, as a session does it
  refine ⟨⟨a.state, Function.update c.inputs i a.input,
    Function.update c.outputs i a.output.forget⟩, ?_, ha.state, fun j => ?_, ?_, fun j hj => ?_⟩
  · simp only [serve, hround, ha.result, Answered.exchange, ha.written, hnew, List.nil_append]
  · dsimp only
    by_cases hj : j = i
    · rw [hj, Function.update_self]
      exact ⟨ha.willing.forget, Sink.bytes_forget _⟩
    · rw [Function.update_of_ne hj]
      exact hopen j
  · dsimp only
    rw [Function.update_self]
    exact ha.front
  · dsimp only
    rw [Function.update_of_ne hj]

end Desk

/-- After each message of `ms` there has been written what the ledger says, and the tree is the one
of the ledger. -/
inductive Follows (root : Place) : Ledger → List Message → List (Bytes × Vault.State) → Prop
  | nil (l : Ledger) : Follows root l [] []
  | cons (l : Ledger) (m : Message) (ms : List Message) (s : Vault.State)
    (steps : List (Bytes × Vault.State)) (hmirrors : Mirrors root s.disk (l.after m))
    (hrest : Follows root (l.after m) ms steps) :
    Follows root l (m :: ms) (((l.reply m).encode, s) :: steps)

/-- The bytes that a connection is sent in the course of a script. -/
def sentTo {ι : Type} [DecidableEq ι] (script : List (ι × Message)) (i : ι) : Bytes :=
  script.flatMap fun step => if step.1 = i then step.2.bytes else []

theorem follows_serveAll {ι : Type} [DecidableEq ι] (hbase : EmptyBase v d₀ root)
    (script : List (ι × Message)) {c : Desk ι Vault.State} (h : Agrees v root d₀ c.state.disk l)
    (hsent : ∀ i, ∃ tail, (c.inputs i).front = sentTo script i ++ tail) (hopen : c.Open) :
    ∃ steps last, c.serveAll (.ofVault v) v.chunkSize (script.map (·.1)) = some (steps, last) ∧
      Follows root l (script.map (·.2)) steps := by
  induction script generalizing c l with
  | nil => exact ⟨[], c, rfl, .nil l⟩
  | cons step script ih =>
    obtain ⟨i, m⟩ := step
    obtain ⟨tail, hfront⟩ := hsent i
    -- what connection `i` is still sent begins with this message
    have hhere : sentTo ((i, m) :: script) i = m.bytes ++ sentTo script i := by simp [sentTo]
    have hthere (j : ι) (hj : j ≠ i) : sentTo ((i, m) :: script) j = sentTo script j := by
      simp [sentTo, Ne.symm hj]
    rw [hhere, List.append_assoc] at hfront
    obtain ⟨c', hserve, hstate, hopen', hrest, hothers⟩ :=
      Desk.serve_message (honest_ofVault v) v.chunkSize hopen hfront
    obtain ⟨hagrees, hreply⟩ := agrees_carryOut hbase h m
    rw [← hstate] at hagrees
    -- the connection served has the rest of its bytes before it, the others have all of theirs
    have hsent' (j : ι) : ∃ tail, (c'.inputs j).front = sentTo script j ++ tail := by
      by_cases hj : j = i
      · rw [hj]
        exact ⟨tail, hrest⟩
      · rw [hothers j hj, ← hthere j hj]
        exact hsent j
    obtain ⟨steps, last, hrun, hfollows⟩ := ih hagrees hsent' hopen'
    refine ⟨_, last, ?_, .cons l m _ c'.state steps hagrees.mirrors hfollows⟩
    rw [List.map_cons, Desk.serveAll, hserve]
    dsimp only
    rw [hrun, hreply]
    rfl

/-- A vault that starts in an empty directory answers all messages, whichever connections they come
over and in whichever order they are handled, as a ledger says that starts empty, and its tree is
that of the ledger after each of them. -/
theorem serveAll_follows_ledger {ι : Type} [DecidableEq ι] {v : Vault} {root : Place} {d : Disk}
    (hbase : EmptyBase v d root) (script : List (ι × Message)) (c : Desk ι Vault.State)
    (hstate : c.state.disk = (v.prepare d).2)
    (hsent : ∀ i, ∃ tail, (c.inputs i).front = sentTo script i ++ tail)
    (hout : ∀ i, (c.outputs i).Willing ∧ (c.outputs i).bytes = []) :
    (v.prepare d).1 = .ok () ∧ Mirrors root (v.prepare d).2 {} ∧
      ∃ steps last, c.serveAll (.ofVault v) v.chunkSize (script.map (·.1)) = some (steps, last) ∧
        Follows root {} (script.map (·.2)) steps := by
  have hagrees := agrees_prepare hbase
  refine ⟨by rw [prepare_eq hbase], hagrees.mirrors, ?_⟩
  exact follows_serveAll hbase script (hstate ▸ hagrees) hsent hout

/-- Two connections and two users: one stores a file, the other one restores and then deletes it,
and the first one asks for the names that are left. -/
theorem serveAll_follows_ledger_two :
    let v : Vault := { base := { absolute := true, steps := [[0x76]] }
                       options := { atomic := false, chunkSize := 0 } }
    let d : Disk :=
      { nodes := ⟨[([[0x76]], .directory 0o755), ([[0x77]], .file 0)]⟩, nextFile := 1 }
    let ms : List Message :=
      [⟨7, 1, .backup [0x61] 2, [0x68, 0x69], by decide, rfl, by simp⟩,
        ⟨7, 1, .restore [0x61], [], by decide, rfl, by simp⟩,
        ⟨7, 1, .delete [0x61], [], by decide, rfl, by simp⟩,
        ⟨7, 1, .list, [], by decide, rfl, by simp⟩]
    let script : List (Bool × Message) := [true, false, false, true].zip ms
    let c : Desk Bool Vault.State :=
      { state := { disk := (v.prepare d).2 }
        inputs := fun i => .ofBytes (sentTo script i)
        outputs := fun _ => {} }
    (v.prepare d).1 = .ok () ∧ Mirrors [[0x76]] (v.prepare d).2 {} ∧
      ∃ steps last, c.serveAll (.ofVault v) v.chunkSize (script.map (·.1)) = some (steps, last) ∧
        Follows [[0x76]] {} (script.map (·.2)) steps := by
  intro v d ms script c
  have hbase : EmptyBase v d [[0x76]] := by
    refine ⟨⟨0o755, by decide, by decide⟩, ?_, by decide, ?_, ?_⟩
    · intro q node hmem steps hq
      simp only [d, List.mem_cons, Prod.mk.injEq, List.not_mem_nil, or_false] at hmem
      rcases hmem with ⟨rfl, -⟩ | ⟨rfl, -⟩
      · exact (List.cons.inj hq).2.symm
      · exact absurd (List.cons.inj hq).1 (by decide)
    · intro access
      cases access <;> decide
    · intro access
      cases access <;> decide
  have hstate : c.state.disk = (v.prepare d).2 := by dsimp only [c]
  have hsent (i : Bool) : ∃ tail, (c.inputs i).front = sentTo script i ++ tail :=
    ⟨[], by rw [List.append_nil]; exact Source.front_ofBytes _⟩
  have hnew : Sink.Willing {} := ⟨rfl, by decide, rfl⟩
  have hout (i : Bool) : (c.outputs i).Willing ∧ (c.outputs i).bytes = [] := ⟨hnew, rfl⟩
  exact serveAll_follows_ledger hbase script c hstate hsent hout

end UserVault.Session
