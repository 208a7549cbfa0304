import UserVault.Proofs.Session.Conversation
import UserVault.Proofs.Vault.Crowd
import UserVault.Proofs.Vault.Ledger

/-!
# Reading a listing

A listing has a line end after each name.  Who cuts it there gets the names back, each once,
exactly where no name has a line end in it.  The vault accepts such names, and so different files
can make for one and the same listing.
-/

namespace UserVault.Vault

open Disk Link Session Protocol

variable {v : Vault} {root : Place} {d₀ d : Disk} {s : State} {user : UInt32} {names : List Bytes}

/-! ## 1. Lines -/

/-- The pieces of a text that a line end follows. -/
def lines (content : Bytes) : List Bytes := (content.splitOn newline).dropLast

theorem splitOn_listingText (h : ∀ name ∈ names, newline ∉ name) :
    (listingText names).splitOn newline = names ++ [[]] := by
  induction names with
  | nil => rfl
  | cons name names ih =>
    have htext : listingText (name :: names) = name ++ newline :: listingText names := by
      rw [listingText, List.flatMap_cons, List.append_assoc, List.singleton_append]
      rfl
    rw [htext, List.splitOn_append_cons_self_of_not_mem (h name List.mem_cons_self),
      ih fun name hmem => h name (List.mem_cons_of_mem _ hmem), List.cons_append]

/-- Names without line ends are read back as they are. -/
theorem lines_listingText (h : ∀ name ∈ names, newline ∉ name) :
    lines (listingText names) = names := by
  rw [lines, splitOn_listingText h, List.dropLast_concat]

theorem newline_notMem_of_mem_splitOn {content piece : Bytes}
    (h : piece ∈ content.splitOn newline) : newline ∉ piece := by
  induction content generalizing piece with
  | nil =>
    rw [List.splitOn_nil, List.mem_singleton] at h
    rw [h]
    exact List.not_mem_nil
  | cons b content ih =>
    rw [List.splitOn_cons_eq_if_modifyHead] at h
    split at h
    next =>
      rcases List.mem_cons.mp h with rfl | h
      · exact List.not_mem_nil
      · exact ih h
    next hb =>
      -- the first piece of the rest grows by a byte that is no line end
      cases hrest : content.splitOn newline with
      | nil => exact absurd hrest (List.splitOn_ne_nil _ _)
      | cons first others =>
        rw [hrest] at h ih
        rw [List.modifyHead_cons] at h
        rcases List.mem_cons.mp h with rfl | h
        · rintro (_ | ⟨_, hmem⟩)
          · exact hb (beq_self_eq_true _)
          · exact ih List.mem_cons_self hmem
        · exact ih (List.mem_cons_of_mem _ h)

/-- No line that is read has a line end in it. -/
theorem newline_notMem_of_mem_lines {content piece : Bytes} (h : piece ∈ lines content) :
    newline ∉ piece :=
  newline_notMem_of_mem_splitOn ((List.dropLast_sublist _).mem h)

/-! ## 2. Listings of stored files -/

/-- A file of the user stands under this name. -/
def HasFile (root : Place) (d : Disk) (user : UInt32) (name : Bytes) : Prop :=
  ∃ id, d.node? (Spot.under (.file user name) root) = some (.file id)

/-- The user has no file whose name a listing would break. -/
def Separable (root : Place) (d : Disk) (user : UInt32) : Prop :=
  ∀ name, HasFile root d user name → newline ∉ name

/-- What is listed for a user is each name of a file once, if there are any. -/
theorem Orderly.exists_names (hbase : EmptyBase v d₀ root) (h : Orderly v root d₀ d)
    (user : UInt32) :
    ∃ names : List Bytes, names.Nodup ∧ (∀ name, name ∈ names ↔ HasFile root d user name) ∧
      v.list d user = if names = [] then .error .noFiles else .ok (listingText names) := by
  refine ⟨fileNames (d.entriesOf (Spot.under (.folder user) root)), ?_, fun name => ?_, ?_⟩
  · rw [fileNames_eq]
    exact (List.mergeSort_perm _ _).nodup_iff.mpr (h.nodup_fileNames user)
  · rw [fileNames_eq, List.mem_mergeSort]
    exact h.mem_fileNames
  · rw [h.list_eq hbase user]
    cases fileNames (d.entriesOf (Spot.under (.folder user) root)) <;> rfl

/-- The lines of a listing are the names just where none of them has a line end. -/
theorem lines_iff_separable (hnames : ∀ name, name ∈ names ↔ HasFile root d user name) :
    (∀ name, name ∈ lines (listingText names) ↔ HasFile root d user name) ↔
      Separable root d user := by
  constructor
  · exact fun h name hfile => newline_notMem_of_mem_lines ((h name).mpr hfile)
  · intro h
    rw [lines_listingText fun name hmem => h name ((hnames name).mp hmem)]
    exact hnames

/-- From a listing without such names one can tell what files there are. -/
theorem names_eq_of_listingText {names' : List Bytes} (h : ∀ name ∈ names, newline ∉ name)
    (h' : ∀ name ∈ names', newline ∉ name) (htext : listingText names = listingText names') :
    names = names' := by
  rw [← lines_listingText h, htext, lines_listingText h']

/-! ## 3. Listings of a vault at work -/

/-- A listing that fits its length field goes out as it is. -/
theorem replies_listing (v : Vault) {s : State} {m : Message} {content : Bytes}
    (hrequest : m.request = .list) (hlist : v.list s.disk m.user = .ok content)
    (hsize : content.length < UInt32.size) :
    (Backend.ofVault v).replies s [m] = [.streamed .listed [] content] := by
  simp [Backend.replies, Backend.outcomes, Backend.carryOut, Backend.ofVault, hrequest, hlist,
    Outcome.reply, Outcome.status, Outcome.content, hsize, Status.shape, Request.name]

/-- Whatever has been done in a vault that was empty at first, a user with files is sent a listing
of them.  Its lines are the names of these files, each once, exactly where none of the names has a
line end in it; and where that holds in two states, the same listing means the same names. -/
theorem listing_read_back (hbase : EmptyBase v d₀ root) (hreach : Reachable v d₀ s) (user : UInt32)
    (hfile : ∃ name, HasFile root s.disk user name) :
    ∃ content, v.list s.disk user = .ok content ∧
      (∀ m : Message, m.user = user → m.request = .list → content.length < UInt32.size →
        (Backend.ofVault v).replies s [m] = [.streamed .listed [] content]) ∧
      (Separable root s.disk user → (lines content).Nodup) ∧
      ((∀ name, name ∈ lines content ↔ HasFile root s.disk user name) ↔
        Separable root s.disk user) ∧
      ∀ d₁ root₁ s₁, EmptyBase v d₁ root₁ → Reachable v d₁ s₁ → Separable root s.disk user →
        Separable root₁ s₁.disk user → v.list s₁.disk user = v.list s.disk user →
        ∀ name, HasFile root₁ s₁.disk user name ↔ HasFile root s.disk user name := by
  obtain ⟨names, hnodup, hnames, hlist⟩ := (hreach.orderly hbase).exists_names hbase user
  have hne : names ≠ [] := by
    obtain ⟨name, hname⟩ := hfile
    exact List.ne_nil_of_mem ((hnames name).mpr hname)
  have hclear (h : Separable root s.disk user) : ∀ name ∈ names, newline ∉ name :=
    fun name hmem => h name ((hnames name).mp hmem)
  rw [if_neg hne] at hlist
  refine ⟨listingText names, hlist, ?_, fun h => ?_, lines_iff_separable hnames, ?_⟩
  · rintro m rfl hrequest hsize
    exact replies_listing v hrequest hlist hsize
  · rw [lines_listingText (hclear h)]
    exact hnodup
  · intro d₁ root₁ s₁ hbase₁ hreach₁ h h₁ hsame name
    obtain ⟨names₁, -, hnames₁, hlist₁⟩ := (hreach₁.orderly hbase₁).exists_names hbase₁ user
    -- there is a listing in the other state too, so there are names in it
    rw [hsame, hlist] at hlist₁
    split at hlist₁
    · cases hlist₁
    · have heq := names_eq_of_listingText (hclear h)
        (fun name hmem => h₁ name ((hnames₁ name).mp hmem)) (Except.ok.inj hlist₁)
      rw [← hnames name, ← hnames₁ name, heq]

/-- One user has stored two files. -/
theorem listing_read_back_two :
    let v : Vault := { base := { absolute := true, steps := [] } }
    let d : Disk := {}
    let s : State :=
      (Crowd.run v (.start v d) ([.store 0 ⟨7, [0x61], 0, .ofBytes []⟩,
        .store 1 ⟨7, [0x62], 0, .ofBytes []⟩] ++
        (List.range 9).flatMap (fun _ => [.advanceStore 0 none, .advanceStore 1 none]))).state
    (∃ name, HasFile [] s.disk 7 name) ∧
    ∃ content, v.list s.disk 7 = .ok content ∧
      (∀ m : Message, m.user = 7 → m.request = .list → content.length < UInt32.size →
        (Backend.ofVault v).replies s [m] = [.streamed .listed [] content]) ∧
      (Separable [] s.disk 7 → (lines content).Nodup) ∧
      ((∀ name, name ∈ lines content ↔ HasFile [] s.disk 7 name) ↔ Separable [] s.disk 7) ∧
      ∀ d₁ root₁ s₁, EmptyBase v d₁ root₁ → Reachable v d₁ s₁ → Separable [] s.disk 7 →
        Separable root₁ s₁.disk 7 → v.list s₁.disk 7 = v.list s.disk 7 →
        ∀ name, HasFile root₁ s₁.disk 7 name ↔ HasFile [] s.disk 7 name := by
  intro v d s
  have hfile : ∃ name, HasFile [] s.disk 7 name := ⟨[0x62], 1, by decide +kernel⟩
  exact ⟨hfile, listing_read_back (emptyBase_root _) ⟨_, rfl⟩ 7 hfile⟩

/-- A user who has stored one file, with a line end in its name, and one who has stored two files
are sent the same listing. -/
theorem listing_ambiguous :
    let v : Vault := { base := { absolute := true, steps := [] } }
    let d : Disk := {}
    let stored (name : Bytes) (i : Nat) : List Action :=
      .store i ⟨7, name, 0, .ofBytes []⟩ :: List.replicate 9 (.advanceStore i none)
    let s : State := (Crowd.run v (.start v d) (stored [0x61, newline, 0x62] 0)).state
    let s' : State := (Crowd.run v (.start v d) (stored [0x62] 0 ++ stored [0x61] 1)).state
    EmptyBase v d [] ∧ Reachable v d s ∧ Reachable v d s' ∧
      HasFile [] s.disk 7 [0x61, newline, 0x62] ∧ ¬HasFile [] s'.disk 7 [0x61, newline, 0x62] ∧
      v.list s.disk 7 = .ok [0x61, newline, 0x62, newline] ∧
      v.list s'.disk 7 = .ok [0x61, newline, 0x62, newline] ∧
      lines [0x61, newline, 0x62, newline] = [[0x61], [0x62]] := by
  intro v d stored s s'
  have hreach : Reachable v d s := ⟨_, rfl⟩
  have hreach' : Reachable v d s' := ⟨_, rfl⟩
  have hnone : s'.disk.node? (Spot.under (.file 7 [0x61, newline, 0x62]) []) = none := by
    decide +kernel
  have hlist' : v.list s'.disk 7 = .ok [0x61, newline, 0x62, newline] := by
    have hnames : (s'.disk.entriesOf (Spot.under (.folder 7) [])).filterMap fileName? =
        [[0x61], [0x62]] := by
      decide +kernel
    rw [(hreach'.orderly (emptyBase_root _)).list_eq (emptyBase_root _) 7, fileNames_eq, hnames,
      List.mergeSort_of_pairwise (by decide)]
    rfl
  refine ⟨emptyBase_root _, hreach, hreach', ⟨0, by decide +kernel⟩, ?_, by decide +kernel, hlist',
    by decide⟩
  rintro ⟨id, hid⟩
  rw [hnone] at hid
  cases hid

end UserVault.Vault
