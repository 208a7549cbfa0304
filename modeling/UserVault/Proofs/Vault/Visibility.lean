import UserVault.Proofs.Protocol.Streaming
import UserVault.Proofs.Vault.Sound

/-!
# What restores can see

A file that stands under a user's name is not written to any more, in a vault that writes files
aside.  So whoever opens it, in whatever crowd, reads the whole payload of one order, the one that
was put in its place last; and a reply whose content is read from it, each read at a moment of its
own, is the reply that would be made from the payload itself.
-/

namespace UserVault.Vault

open Disk Link Protocol

variable {v : Vault} {root : Place} {d₀ d d' : Disk} {name : Bytes} {c : Crowd}

/-! ## 1. One restore -/

/-- An open file holds the whole payload of an order, and nobody writes to it. -/
structure Opened.Shows (root : Place) (d : Disk) (o : Order) (file : Opened) : Prop where
  length : file.length = o.length
  whole : o.payload.length = o.length.toNat
  frozen : Frozen root d file.file
  content : (d.contentOf file.file).bytes = o.payload

/-- A restore has opened a file, and all that it has read is the first of a payload. -/
structure Restoring.Shows (o : Order) (file : Opened) (r : Restoring) : Prop where
  result : r.result = .ok file
  sent : r.sent <+: o.payload
  short : r.short = false

variable {o : Order} {file : Opened} {r : Restoring}

theorem Opened.Shows.beside (h : file.Shows root d o) {P : Spot → Prop}
    (hbeside : FrozenKept root P d d') : file.Shows root d' o :=
  { h with
    frozen := hbeside.frozen _ h.frozen
    content := by rw [hbeside.content _ h.frozen, h.content] }

theorem Opened.Shows.length_payload (h : file.Shows root d o) :
    o.payload.length = file.length.toNat := by
  rw [h.length, h.whole]

/-- Each read gets all that it asks for, as far as the payload goes. -/
theorem Restoring.Shows.read_eq (h : r.Shows o file) (hfile : file.Shows root d o) (count : Nat) :
    r.read d count = { r with sent := o.payload.take (r.sent.length + max 1 count) } := by
  obtain ⟨rest, hrest⟩ := h.sent
  have hlength : r.sent.length + rest.length = file.length.toNat := by
    rw [← List.length_append, hrest, hfile.length_payload]
  have htake : o.payload.take (r.sent.length + max 1 count) =
      r.sent ++ rest.take (max 1 count) := by
    rw [← hrest, List.take_length_add_append]
  unfold Restoring.read
  rw [h.result, htake]
  dsimp only
  split
  next hlt =>
    have hread : d.readAt file.file r.sent.length
        (min (max 1 count) (file.length.toNat - r.sent.length)) = rest.take (max 1 count) := by
      rw [readAt, hfile.content, ← hrest, List.drop_left, ← hlength, Nat.add_sub_cancel_left,
        ← List.take_eq_take_min]
    rw [hread]
    split
    next hnil =>
      -- something is left, so a read gets at least one byte
      have hzero := congrArg List.length hnil
      rw [List.length_take, List.length_nil] at hzero
      omega
    next => rfl
  next hge =>
    have hnil : rest = [] := List.eq_nil_of_length_eq_zero (by omega)
    rw [hnil, List.take_nil, List.append_nil, ← h.result]

theorem Restoring.Shows.read (h : r.Shows o file) (hfile : file.Shows root d o) (count : Nat) :
    (r.read d count).Shows o file := by
  rw [h.read_eq hfile]
  exact ⟨h.result, List.take_prefix _ _, h.short⟩

/-- A restore that feeds a reply.  Its reads are made one after the other, the read number `n` on
the disk `disks n`. -/
structure Feed where
  restoring : Restoring
  reads : Nat := 0

def Feed.read (disks : Nat → Disk) (f : Feed) (room : Nat) : Received × Feed :=
  let r := f.restoring.read (disks f.reads) room
  match r.sent.drop f.restoring.sent.length with
  | [] => (.ended, ⟨r, f.reads + 1⟩)
  | bytes => (.bytes bytes, ⟨r, f.reads + 1⟩)

/-- What is left of a payload in a source is what a restore has not read yet. -/
def Feed.Matches (o : Order) (file : Opened) (f : Feed) (source : Source) : Prop :=
  f.restoring.Shows o file ∧ ∃ left, source = .ofBytes left ∧ f.restoring.sent ++ left = o.payload

theorem read_ofBytes (left : Bytes) (room : Nat) :
    (Source.ofBytes left).read room =
      (match left with
        | [] => .ended
        | b :: bs => .bytes ((b :: bs).take room), .ofBytes (left.drop room)) := by
  cases left with
  | nil => rw [List.drop_nil]; rfl
  | cons b bs => rfl

theorem Feed.Matches.read {disks : Nat → Disk} {f : Feed} {source : Source}
    (h : f.Matches o file source) (hfile : ∀ n, file.Shows root (disks n) o) {room : Nat}
    (hroom : 0 < room) :
    (f.read disks room).1 = (source.read room).1 ∧
      (f.read disks room).2.Matches o file (source.read room).2 := by
  obtain ⟨hshows, left, rfl, hleft⟩ := h
  have hmax : max 1 room = room := Nat.max_eq_right hroom
  have hread : f.restoring.read (disks f.reads) room =
      { f.restoring with sent := f.restoring.sent ++ left.take room } := by
    rw [hshows.read_eq (hfile f.reads), hmax, ← hleft, List.take_length_add_append]
  have hshows' := hshows.read (hfile f.reads) room
  rw [hread] at hshows'
  have hleft' : (f.restoring.sent ++ left.take room) ++ left.drop room = o.payload := by
    rw [List.append_assoc, List.take_append_drop, hleft]
  rw [read_ofBytes]
  simp only [Feed.read, hread, List.drop_left]
  cases left with
  | nil =>
    rw [List.take_nil] at hshows' hleft' ⊢
    exact ⟨rfl, hshows', _, rfl, hleft'⟩
  | cons b bs =>
    obtain ⟨room, rfl⟩ : ∃ k, room = k + 1 := ⟨room - 1, by omega⟩
    exact ⟨rfl, hshows', _, rfl, hleft'⟩

/-- A reply whose content a restore reads from a file, at any moments at which that holds a payload,
is the reply that is made from the payload itself. -/
theorem sendFrom_feed {disks : Nat → Disk} (hfile : ∀ n, file.Shows root (disks n) o)
    (chunk : Nat) (status : Status) (name : Bytes) (sink : Sink) :
    Likewise (Feed.Matches o file)
      (sendFrom (Feed.read disks) chunk status name file.length
        { restoring := { result := .ok file } } sink)
      (sendStream chunk status name file.length (.ofBytes o.payload) sink) :=
  sendFrom_likewise (fun _ _ _ h hroom _ => h.read hfile hroom) status name file.length sink
    ⟨⟨rfl, List.nil_prefix, rfl⟩, o.payload, rfl, rfl⟩

theorem lastPut_spec {user : UInt32} {name : Bytes} {events : List Event}
    (h : lastPut user name events = some o) :
    .put o ∈ events ∧ o.user = user ∧ o.name = name := by
  induction events with
  | nil => cases h
  | cons event events ih =>
    cases event with
    | put order =>
      rw [Crowd.lastPut_put] at h
      split at h
      next heq =>
        cases h
        exact ⟨List.mem_cons_self, heq⟩
      next =>
        obtain ⟨hmem, heq⟩ := ih h
        exact ⟨List.mem_cons_of_mem _ hmem, heq⟩
    | gone user' name' =>
      rw [Crowd.lastPut_gone] at h
      split at h
      · cases h
      · obtain ⟨hmem, heq⟩ := ih h
        exact ⟨List.mem_cons_of_mem _ hmem, heq⟩

/-! ## 2. Restores in crowds -/

namespace Crowd

/-- Opening a user's file gives the payload that was put there last. -/
theorem Sound.retrieve (hbase : EmptyBase v d₀ root) (h : c.Sound v root d₀) (user : UInt32)
    (hname : accepts name) :
    match lastPut user name c.events with
    | none => v.retrieve c.state.disk user name = .error .notFound
    | some o => ∃ file : Opened, v.retrieve c.state.disk user name = .ok file ∧
        file.Shows root c.state.disk o := by
  have htree := h.tidy.tree
  have hretrieve := htree.retrieve_eq hbase user hname
  have hfile := h.files user name
  rcases htree.file_cases user name with hnone | ⟨id, hnode, hid⟩
  · rw [fileAt_of_none hnone] at hfile
    rw [hnone] at hretrieve
    rw [Option.map_eq_none_iff.mp hfile.symm]
    exact hretrieve
  · rw [fileAt_of_file hnode] at hfile
    obtain ⟨o, hlast, hpayload⟩ := Option.map_eq_some_iff.mp hfile.symm
    -- the file has the length of the order, so it is not too large to be sent
    have hwhole := h.whole o (lastPut_spec hlast).1
    have hsize : (c.state.disk.contentOf id).size = o.length.toNat := by
      rw [← Content.length_bytes, ← hpayload, hwhole]
    rw [hnode] at hretrieve
    dsimp only at hretrieve
    rw [hsize, if_pos o.length.toNat_lt, UInt32.ofNat_toNat] at hretrieve
    rw [hlast]
    refine ⟨_, hretrieve, rfl, hwhole, ⟨hid.lt, fun number hstaged => ?_⟩, hpayload.symm⟩
    cases htree.distinct _ _ id hstaged hnode

theorem Sound.step_beside (hbase : EmptyBase v d₀ root) (hatomic : v.options.atomic = true)
    (h : c.Sound v root d₀) (action : Action) :
    ∃ P, FrozenKept root P c.state.disk (c.step v action).state.disk := by
  cases action with
  | advanceStore i fault =>
    simp only [Crowd.step]
    split
    · exact ⟨fun _ => False, FrozenKept.refl root _ _⟩
    next p hp =>
      split
      · exact ⟨_, ((h.stores i p hp).step hbase hatomic h.tidy.tree fault).beside⟩
      · exact ⟨fun _ => False, FrozenKept.refl root _ _⟩
  | advanceRemoval i fault =>
    simp only [Crowd.step]
    split
    · exact ⟨fun _ => False, FrozenKept.refl root _ _⟩
    next p hp =>
      split
      · exact ⟨_, ((h.tidy.removals i p hp).beside hbase h.tidy.tree fault).1⟩
      · exact ⟨fun _ => False, FrozenKept.refl root _ _⟩
  | store | remove | restore | list | read =>
    refine ⟨fun _ => False, ?_⟩
    simp only [Crowd.step]
    first
      | exact FrozenKept.refl root _ _
      | split <;> exact FrozenKept.refl root _ _

/-- How much the reads of a restore ask for, each for one byte at least. -/
def roomAsked (i : Nat) : List Action → Nat
  | [] => 0
  | .read j count :: actions =>
    if j = i then max 1 count + roomAsked i actions else roomAsked i actions
  | _ :: actions => roomAsked i actions

theorem roomAsked_cons_of_ne {action : Action} {i : Nat} (hne : ∀ count, action ≠ .read i count)
    (actions : List Action) : roomAsked i (action :: actions) = roomAsked i actions := by
  cases action with
  | read j count =>
    have hj : j ≠ i := by
      rintro rfl
      exact hne count rfl
    rw [roomAsked, if_neg hj]
  | _ => rfl

/-- A restore looks at the disk once, and changes nothing there. -/
theorem restores_restore (v : Vault) {i : Nat} (user : UInt32) (name : Bytes)
    (hfree : c.restores i = none) :
    (c.step v (.restore i user name)).state = c.state ∧
      (c.step v (.restore i user name)).restores i =
        some { result := v.retrieve c.state.disk user name } := by
  simp only [Crowd.step, hfree, Function.update_self, and_self]

theorem restores_read {i : Nat} (hr : c.restores i = some r) (count : Nat) :
    (c.step v (.read i count)).restores i = some (r.read c.state.disk count) := by
  simp only [Crowd.step, hr, Function.update_self]

/-- A restore is changed by its own actions only. -/
theorem restores_step_of_ne (v : Vault) (c : Crowd) {action : Action} {i : Nat}
    (hrestore : ∀ user name, action ≠ .restore i user name)
    (hread : ∀ count, action ≠ .read i count) :
    (c.step v action).restores i = c.restores i := by
  cases action with
  | restore j user name =>
    have hj : i ≠ j := by
      rintro rfl
      exact hrestore user name rfl
    simp only [Crowd.step]
    split
    · rfl
    · exact Function.update_of_ne hj _ _
  | read j count =>
    have hj : i ≠ j := by
      rintro rfl
      exact hread count rfl
    simp only [Crowd.step]
    split
    · rfl
    · exact Function.update_of_ne hj _ _
  | list => rfl
  | store | remove =>
    simp only [Crowd.step]
    split
    · rfl
    · rfl
  | advanceStore | advanceRemoval =>
    simp only [Crowd.step]
    split
    · rfl
    · split
      · rfl
      · rfl

/-- A restore that is under way is changed by its reads only. -/
theorem restores_step (v : Vault) (c : Crowd) {action : Action} {i : Nat}
    (hr : c.restores i = some r) (hread : ∀ count, action ≠ .read i count) :
    (c.step v action).restores i = some r := by
  by_cases hrestore : ∃ user name, action = .restore i user name
  · obtain ⟨user, name, rfl⟩ := hrestore
    simp only [Crowd.step, hr]
  · rw [restores_step_of_ne v c (fun user name heq => hrestore ⟨user, name, heq⟩) hread, hr]

/-- Nobody reads where nobody has opened a file. -/
theorem restores_run (v : Vault) (actions : List Action) {i : Nat} (hfree : c.restores i = none)
    (hnone : ∀ user name, .restore i user name ∉ actions) :
    (run v c actions).restores i = none := by
  induction actions generalizing c with
  | nil => exact hfree
  | cons action actions ih =>
    refine ih ?_ fun user name hmem => hnone user name (List.mem_cons_of_mem _ hmem)
    by_cases hread : ∃ count, action = .read i count
    · obtain ⟨count, rfl⟩ := hread
      simp only [Crowd.step, hfree]
    · rw [restores_step_of_ne v c ?_ (not_exists.mp hread), hfree]
      rintro user name rfl
      exact hnone user name List.mem_cons_self

/-- What a restore shows it shows to its end, whatever becomes of the name, and it comes on with
each of its reads. -/
theorem shows_run (hbase : EmptyBase v d₀ root) (hatomic : v.options.atomic = true)
    (later : List Action) {i : Nat} (hsound : c.Sound v root d₀) (hr : c.restores i = some r)
    (hfile : file.Shows root c.state.disk o) (hshows : r.Shows o file) :
    file.Shows root (run v c later).state.disk o ∧
      ∃ r', (run v c later).restores i = some r' ∧ r'.Shows o file ∧
        r'.sent = o.payload.take (r.sent.length + roomAsked i later) := by
  induction later generalizing c r with
  | nil => exact ⟨hfile, r, hr, hshows, List.prefix_iff_eq_take.mp hshows.sent⟩
  | cons action later ih =>
    obtain ⟨P, hbeside⟩ := hsound.step_beside hbase hatomic action
    have hsound' := hsound.step hbase hatomic action
    have hfile' := hfile.beside hbeside
    by_cases hread : ∃ count, action = .read i count
    · obtain ⟨count, rfl⟩ := hread
      obtain ⟨hlast, r', hr', hshows', hsent⟩ :=
        ih hsound' (restores_read hr count) hfile' (hshows.read hfile count)
      refine ⟨hlast, r', hr', hshows', ?_⟩
      rw [hsent, hshows.read_eq hfile, roomAsked, if_pos rfl]
      dsimp only
      rw [List.take_eq_take_iff, List.length_take]
      omega
    · have hne : ∀ count, action ≠ .read i count := not_exists.mp hread
      rw [roomAsked_cons_of_ne hne]
      exact ih hsound' (restores_step v c hr hne) hfile' hshows

theorem error_run (v : Vault) (later : List Action) {i : Nat} {e : VaultError}
    (hr : c.restores i = some r) (hresult : r.result = .error e) :
    ∃ r', (run v c later).restores i = some r' ∧ r'.result = .error e := by
  refine run_induction (motive := fun c => ∃ r', c.restores i = some r' ∧ r'.result = .error e)
    later (fun c action h => ?_) ⟨r, hr, hresult⟩
  obtain ⟨r, hr, hresult⟩ := h
  by_cases hread : ∃ count, action = .read i count
  · obtain ⟨count, rfl⟩ := hread
    refine ⟨_, restores_read hr count, ?_⟩
    rw [Restoring.read, hresult]
    exact hresult
  · exact ⟨r, restores_step v c hr (not_exists.mp hread), hresult⟩

/-- Where files are written aside, a restore that opens a user's file at any moment finds the whole
payload of the order that was renamed there last, if the name has not been taken away since, and
else nothing.  Whatever anybody does later, the file goes on holding that payload.  All that the
restore reads is from there, it gets as much as it asks for until it has all, and it does not end
short of its length.  The reply for which it reads, each time at any moment, is the one that would
be sent from the payload itself: a sink that takes it gets the whole payload. -/
theorem restore_shows_last_put (hbase : EmptyBase v d₀ root) (hatomic : v.options.atomic = true)
    (before : List Action) (i : Nat) (user : UInt32) (hname : accepts name)
    (hfree : (run v (start v d₀) before).restores i = none) :
    let after (later : List Action) :=
      run v (start v d₀) (before ++ .restore i user name :: later)
    match lastPut user name (run v (start v d₀) before).events with
    | none => ∀ later, ∃ r, (after later).restores i = some r ∧ r.result = .error .notFound
    | some o => o.user = user ∧ o.name = name ∧ ∃ file : Opened,
        file.length = o.length ∧ o.payload.length = file.length.toNat ∧
        (∀ later, ((after later).state.disk.contentOf file.file).bytes = o.payload ∧
          ∃ r, (after later).restores i = some r ∧ r.result = .ok file ∧ r.short = false ∧
            r.sent = o.payload.take (roomAsked i later) ∧
            (file.length.toNat ≤ roomAsked i later → r.sent = o.payload)) ∧
        ∀ disks : Nat → Disk, (∀ n, ∃ later, disks n = (after later).state.disk) →
          ∀ chunk sink,
            let reply := sendFrom (Feed.read disks) chunk .restored name file.length
              { restoring := { result := .ok file } } sink
            Likewise (Feed.Matches o file) reply
                (sendStream chunk .restored name file.length (.ofBytes o.payload) sink) ∧
              (∀ declared sent, reply.result ≠ .error (.shortContent declared sent)) ∧
              (sink.Willing → reply.result = .ok () ∧
                reply.sink.bytes =
                  sink.bytes ++ (Reply.streamed .restored name o.payload).encode) := by
  intro after
  have hsound := sound_run hbase hatomic before
  have hretrieve := hsound.retrieve hbase user hname
  -- the run is cut where the restore opens the file
  have hafter (later : List Action) :
      after later = run v ((run v (start v d₀) before).step v (.restore i user name)) later := by
    simp only [after, run, List.foldl_append, List.foldl_cons]
  have hsound' := hsound.step hbase hatomic (.restore i user name)
  obtain ⟨hstate, hr⟩ := restores_restore v user name hfree
  split at hretrieve
  next hnone =>
    intro later
    rw [hafter]
    exact error_run v later hr hretrieve
  next o hlast =>
    obtain ⟨file, hopened, hfile⟩ := hretrieve
    rw [← hstate] at hfile
    rw [hopened] at hr
    obtain ⟨-, huser, hname'⟩ := lastPut_spec hlast
    have hruns (later : List Action) :=
      shows_run hbase hatomic later hsound' hr hfile ⟨rfl, List.nil_prefix, rfl⟩
    refine ⟨huser, hname', file, hfile.length, hfile.length_payload, fun later => ?_,
      fun disks hdisks chunk sink => ?_⟩
    · obtain ⟨hlater, r, hr', hshows, hsent⟩ := hruns later
      rw [List.length_nil, Nat.zero_add] at hsent
      rw [hafter]
      refine ⟨hlater.content, r, hr', hshows.result, hshows.short, hsent, fun hall => ?_⟩
      rw [hsent, List.take_of_length_le]
      rwa [hfile.length_payload]
    · have hmoments (n : Nat) : file.Shows root (disks n) o := by
        obtain ⟨later, hdisk⟩ := hdisks n
        rw [hdisk, hafter]
        exact (hruns later).1
      have hreply := sendFrom_feed hmoments chunk .restored name sink
      have hname : name.length ≤ maxNameField :=
        Nat.le_trans (length_le_of_accepts hname) (by decide)
      refine ⟨hreply, ?_⟩
      rw [hreply.result, hreply.sink]
      exact sendStream_content chunk .restored hname hfile.length_payload sink

/-- A file is stored, opened and half read; then it is removed and the restore reads on.  A reply
that is begun only now gets the whole file, too. -/
theorem restore_shows_last_put_removed :
    let v : Vault := { base := { absolute := true, steps := [] }, options := { chunkSize := 2 } }
    let before : List Action :=
      .store 0 ⟨7, [0x61], 3, .ofBytes [1, 2, 3]⟩ :: List.replicate 8 (.advanceStore 0 none)
    let later : List Action :=
      [.read 0 2, .remove 0 7 [0x61], .advanceRemoval 0 none, .read 0 2]
    let c := run v (start v {}) (before ++ .restore 0 7 [0x61] :: later)
    c.state.disk.node? (Spot.under (.file 7 [0x61]) []) = none ∧
      ∃ file r, c.restores 0 = some r ∧ r.result = .ok file ∧ r.short = false ∧
        r.sent = [1, 2, 3] ∧
        (sendFrom (Feed.read fun _ => c.state.disk) 2 .restored [0x61] file.length
          { restoring := { result := .ok file } } {}).sink.bytes =
            [1, 210, 0, 1, 0, 0x61, 3, 0, 0, 0, 1, 2, 3] := by
  intro v before later c
  have hname : accepts [0x61] := by decide +kernel
  have hfree : (run v (start v {}) before).restores 0 = none :=
    restores_run v before rfl fun user name h => by simp [before] at h
  have hput : (lastPut 7 [0x61] (run v (start v {}) before).events).map Order.payload =
      some [1, 2, 3] := by
    decide +kernel
  have h := restore_shows_last_put (v := v) (emptyBase_root v.options) rfl before 0 7 hname hfree
  refine ⟨by decide +kernel, ?_⟩
  cases hlast : lastPut 7 [0x61] (run v (start v {}) before).events with
  | none =>
    rw [hlast] at hput
    cases hput
  | some o =>
    rw [hlast] at hput
    have hpayload : o.payload = [1, 2, 3] := Option.some.inj hput
    simp only [hlast] at h
    obtain ⟨-, -, file, -, hlength, hlater, hreply⟩ := h
    obtain ⟨-, r, hr, hresult, hshort, hsent, -⟩ := hlater later
    obtain ⟨-, -, hwhole⟩ := hreply (fun _ => c.state.disk) (fun _ => ⟨later, rfl⟩) 2 {}
    obtain ⟨-, hbytes⟩ := hwhole ⟨rfl, by decide, rfl⟩
    rw [hpayload] at hsent hbytes
    refine ⟨file, r, hr, hresult, hshort, hsent, hbytes.trans ?_⟩
    decide

end Crowd

end UserVault.Vault
