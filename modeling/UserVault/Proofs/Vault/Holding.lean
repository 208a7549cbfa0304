import UserVault.Proofs.Vault.Moves

/-!
# What an upload has written

The file that an upload has opened stands at the spot of the upload and holds just what the upload
has read of its payload, as long as no write to it has failed.
-/

namespace UserVault.Vault

open Disk Link

variable {v : Vault} {root : Place} {d₀ d d' : Disk} {user : UInt32} {name : Bytes} {u u' : Upload}
  {payload : Bytes}

/-- Whether the file that an upload has opened is known to hold what the upload has read. -/
def Upload.Intact (u : Upload) : Prop :=
  match u.stage with
  | .copying file _ | .flushing file _ => file.failure = none
  | .syncing _ _ | .publishing _ => True
  | _ => False

/-- The file of an upload is the one with the identity `id`, and holds what has been read. -/
structure Keeps (payload : Bytes) (u : Upload) (d : Disk) (id : FileId) : Prop where
  target : ∀ file, u.handle? = some file → file.target = .file id
  offset : u.Intact → ∀ file, u.handle? = some file → file.offset = (d.contentOf id).size
  content : u.Intact → (d.contentOf id).bytes = payload.take (payload.length - u.remaining)

/-- What an upload writes to is its file. -/
theorem Keeps.id_eq {id id' : FileId} (h : Keeps payload u d id) {file : Handle}
    (hhandle : u.handle? = some file) (htarget : file.target = .file id') : id = id' := by
  have hsame := h.target file hhandle
  rw [htarget] at hsame
  exact (Target.file.inj hsame).symm

/-- What an upload of a user's file has written stands at its spot. -/
structure Holding (v : Vault) (root : Place) (user : UInt32) (name payload : Bytes) (u : Upload)
    (d : Disk) : Prop where
  fresh : u.stage = .preparing ∨ u.stage = .takingTurn ∨ u.stage = .opening →
    u.remaining = payload.length
  file : ∀ staged spot, u.opened? = some staged → Own v user name staged spot →
    ∃ id, d.node? (spot.under root) = some (.file id) ∧ Keeps payload u d id

theorem holding_start (v : Vault) (root : Place) (user : UInt32) {name payload : Bytes}
    {length : UInt32} (hlength : payload.length = length.toNat) (body : Source) (d : Disk) :
    Holding v root user name payload (Upload.start v user name length body) d := by
  unfold Upload.start
  split
  · exact ⟨fun _ => hlength.symm, fun _ _ h => by cases h⟩
  · exact ⟨fun _ => hlength.symm, fun _ _ h => by cases h⟩

/-- An upload that is over, or is about to open its file, holds nothing. -/
theorem holding_of_none (hopened : u.opened? = none)
    (hfresh : u.stage = .preparing ∨ u.stage = .takingTurn ∨ u.stage = .opening →
      u.remaining = payload.length) : Holding v root user name payload u d :=
  ⟨hfresh, fun staged spot h => by rw [hopened] at h; cases h⟩

theorem holding_settle (result : Except StoreError Unit) :
    Holding v root user name payload (u.settle result) d := by
  refine holding_of_none (opened?_settle u result) fun hfresh => ?_
  rcases u.stage_settle result with hstage | hstage <;> simp [hstage] at hfresh

/-- An upload goes on with its file. -/
theorem holding_of_some {staged : Option Path} {spot : Spot} {id : FileId}
    (hopened : u.opened? = some staged) (hown : Own v user name staged spot)
    (hnode : d.node? (spot.under root) = some (.file id)) (hkeeps : Keeps payload u d id) :
    Holding v root user name payload u d := by
  constructor
  · intro hstage
    rcases hstage with hstage | hstage | hstage <;> rw [Upload.opened?, hstage] at hopened <;>
      cases hopened
  · intro staged' spot' hopened' hown'
    rw [hopened] at hopened'
    cases hopened'
    rw [hown.unique hown'] at hnode
    exact ⟨id, hnode, hkeeps⟩

theorem Holding.exists_file (h : Holding v root user name payload u d) (hu : Placed v user name u)
    {staged : Option Path} (hopened : u.opened? = some staged) :
    ∃ spot id, Own v user name staged spot ∧ d.node? (spot.under root) = some (.file id) ∧
      Keeps payload u d id := by
  obtain ⟨spot, hown⟩ := hu.opened staged hopened
  obtain ⟨id, hnode, hkeeps⟩ := h.file staged spot hopened hown
  exact ⟨spot, id, hown, hnode, hkeeps⟩

-- After the last read the file holds the payload.
theorem Keeps.whole {missing tail : Bytes} {barrier : Option FaultKind} {id : FileId}
    (h : Keeps payload u d id) (haccounts : u.Accounts payload missing tail barrier)
    (hread : u.hasRead = true) (hintact : u.Intact) : (d.contentOf id).bytes = payload := by
  have hzero : u.remaining = 0 := by
    cases haccounts with
    | good _ hzero _ => exact hzero hread
    | cutOff cause hcause _ =>
      unfold Upload.outcome? at hcause
      unfold Upload.hasRead at hread
      split at hcause <;> simp_all
  have hcontent := h.content hintact
  rwa [hzero, Nat.sub_zero, List.take_length] at hcontent

/-- Others may do what they like, as long as they leave an upload's file alone. -/
theorem Holding.congr (h : Holding v root user name payload u d) {P : Spot → Prop}
    (hkept : SpotsKept root P d d')
    (hown : ∀ staged spot, u.opened? = some staged → Own v user name staged spot → ¬P spot) :
    Holding v root user name payload u d' := by
  -- the file is at a spot that was kept, so it is the same file with the same content
  refine ⟨h.fresh, fun staged spot hopened hspot => ?_⟩
  obtain ⟨id, hnode, hkeeps⟩ := h.file staged spot hopened hspot
  have hP := hown staged spot hopened hspot
  have hcontent := hkept.content spot hP id hnode
  refine ⟨id, (hkept.node spot hP).trans hnode, hkeeps.target, ?_, ?_⟩
  · rw [hcontent]
    exact hkeeps.offset
  · rw [hcontent]
    exact hkeeps.content

/-- A new or emptied file holds what has been read so far, which is nothing. -/
theorem keeps_empty {file : Handle} {id : FileId} (hhandle : u.handle? = some file)
    (htarget : file.target = .file id) (hoffset : file.offset = 0)
    (hempty : d.contentOf id = .empty) (hremaining : u.remaining = payload.length) :
    Keeps payload u d id := by
  refine ⟨fun file' h => ?_, fun _ file' h => ?_, fun _ => ?_⟩
  · rw [hhandle] at h
    cases h
    exact htarget
  · rw [hhandle] at h
    cases h
    rw [hempty, hoffset]
    rfl
  · rw [hempty, hremaining, Nat.sub_self]
    rfl

/-- Of what an upload keeps, a step that touches neither the file nor the payload loses nothing. -/
theorem Keeps.congr {id : FileId} (h : Keeps payload u d id)
    (hremaining : u'.remaining = u.remaining)
    (hhandle : ∀ file, u'.handle? = some file → ∃ file', u.handle? = some file' ∧
      file.target = file'.target ∧ file.offset = file'.offset)
    (hintact : u'.Intact → u.Intact) : Keeps payload u' d id := by
  refine ⟨fun file hfile => ?_, fun hclean file hfile => ?_, fun hclean => ?_⟩
  · obtain ⟨file', hfile', htarget, -⟩ := hhandle file hfile
    rw [htarget]
    exact h.target file' hfile'
  · obtain ⟨file', hfile', -, hoffset⟩ := hhandle file hfile
    rw [hoffset]
    exact h.offset (hintact hclean) file' hfile'
  · rw [hremaining]
    exact h.content (hintact hclean)

/-- Of a file that is not known to hold what was read, only which one it is matters. -/
theorem Keeps.spoiled {id : FileId} (h : Keeps payload u d id)
    (hhandle : ∀ file, u'.handle? = some file → ∃ file', u.handle? = some file' ∧
      file.target = file'.target)
    (hspoiled : ¬u'.Intact) : Keeps payload u' d' id := by
  refine ⟨fun file hfile => ?_, fun hclean => absurd hclean hspoiled,
    fun hclean => absurd hclean hspoiled⟩
  obtain ⟨file', hfile', htarget⟩ := hhandle file hfile
  rw [htarget]
  exact h.target file' hfile'

/-- A step that leaves the disk alone opens no file. -/
theorem Quiet.opened {fault : Option Errno} (hquiet : Quiet v fault d u u') {staged : Option Path}
    (hopened : u'.opened? = some staged) : u.opened? = some staged := by
  cases hquiet with
  | refused | completed =>
    rw [opened?_settle] at hopened
    cases hopened
  | finished => exact hopened
  | waited turn stage hstage hstage' =>
    rcases hstage' with rfl | rfl <;> cases hopened
  | left result turn stage hstage hstage' =>
    rcases hstage' with rfl | rfl <;> cases hopened
  | delayed file staged' body remaining e hstage hfault =>
    rw [Upload.opened?, hstage]
    exact hopened
  | copied file staged' hstage hremaining =>
    rw [Upload.opened?, hstage]
    exact hopened
  | flushed file staged' hstage hclean =>
    rw [Upload.opened?, hstage]
    exact hopened
  | synced file staged' hstage =>
    rw [Upload.opened?, hstage]
    exact hopened
  | gaveUp staged' cause body remaining hopened' hwhy => exact hopened'.trans hopened

/-- A step that leaves the disk alone writes on to the same file, if it goes on writing. -/
theorem Quiet.handle {fault : Option Errno} (hquiet : Quiet v fault d u u') {file : Handle}
    (hhandle : u'.handle? = some file) :
    ∃ file', u.handle? = some file' ∧ file.target = file'.target := by
  cases hquiet with
  | refused | completed =>
    rw [handle?_settle] at hhandle
    cases hhandle
  | finished => exact ⟨file, hhandle, rfl⟩
  | waited turn stage hstage hstage' =>
    rcases hstage' with rfl | rfl <;> cases hhandle
  | left result turn stage hstage hstage' =>
    rcases hstage' with rfl | rfl <;> cases hhandle
  | delayed file' staged body remaining e hstage =>
    cases hhandle
    exact ⟨file', by rw [Upload.handle?, hstage], rfl⟩
  | copied file' staged hstage | flushed file' staged hstage =>
    cases hhandle
    exact ⟨file, by rw [Upload.handle?, hstage], rfl⟩
  | synced | gaveUp => cases hhandle

/-- A step that leaves the disk alone and the file open, if one is, keeps what the file holds. -/
theorem Quiet.keeps {id : FileId} (h : Keeps payload u d id) {fault : Option Errno}
    (hquiet : Quiet v fault d u u') {staged : Option Path} (hopened : u'.opened? = some staged) :
    Keeps payload u' d id := by
  cases hquiet with
  | refused | completed =>
    rw [opened?_settle] at hopened
    cases hopened
  | finished => exact h
  | waited turn stage hstage hstage' =>
    rcases hstage' with rfl | rfl <;> cases hopened
  | left result turn stage hstage hstage' =>
    rcases hstage' with rfl | rfl <;> cases hopened
  | delayed file staged' body remaining e hstage hfault =>
    refine h.spoiled (fun file' hfile => ?_) fun hclean => by cases hclean
    cases hfile
    exact ⟨file, by rw [Upload.handle?, hstage], rfl⟩
  | copied file staged' hstage hremaining =>
    refine h.congr rfl (fun file' hfile => ?_) ?_
    · cases hfile
      exact ⟨file, by rw [Upload.handle?, hstage], rfl, rfl⟩
    · intro hclean
      rw [Upload.Intact, hstage]
      exact hclean
  | flushed file staged' hstage hclean =>
    refine h.congr rfl (fun file' hfile => ?_) ?_
    · cases hfile
      exact ⟨file, by rw [Upload.handle?, hstage], rfl, rfl⟩
    · intro _
      rw [Upload.Intact, hstage]
      exact hclean
  | synced file staged' hstage =>
    refine h.congr rfl (fun file hfile => by cases hfile) ?_
    intro _
    rw [Upload.Intact, hstage]
    trivial
  | gaveUp staged' cause body remaining hopened' hwhy =>
    exact h.spoiled (fun file hfile => by cases hfile) fun hclean => by cases hclean

theorem Quiet.holding (h : Holding v root user name payload u d) (hu : Placed v user name u)
    {fault : Option Errno} (hquiet : Quiet v fault d u u') :
    Holding v root user name payload u' d := by
  have hgoesOn (staged : Option Path) (hopened : u'.opened? = some staged) :
      Holding v root user name payload u' d := by
    obtain ⟨spot, id, hown, hnode, hkeeps⟩ := h.exists_file hu (hquiet.opened hopened)
    exact holding_of_some hopened hown hnode (hquiet.keeps hkeeps hopened)
  cases hquiet with
  | refused | completed => exact holding_settle _
  | finished => exact h
  | waited turn stage hstage hstage' =>
    have hremaining := h.fresh (.inr (.inl hstage))
    rcases hstage' with rfl | rfl <;> exact holding_of_none rfl fun _ => hremaining
  | left result turn stage hstage hstage' =>
    rcases hstage' with rfl | rfl <;> exact holding_of_none rfl (by simp)
  | delayed | copied | flushed | synced | gaveUp => exact hgoesOn _ rfl

/-- The chunk that a step reads is the next one of the payload. -/
theorem bytes_of_read {missing tail : Bytes} {barrier : Option FaultKind}
    (hfed : u.Fed payload missing tail barrier) {want : Nat} (hwant : want ≤ u.remaining)
    {bytes : Bytes} {body : Source} (hread : Source.exactly want u.body = (.ok bytes, body)) :
    bytes = (payload.drop (payload.length - u.remaining)).take want := by
  rcases hfed.exactly hwant with ⟨chunk, rest, hread', hchunk, -, -⟩ | ⟨cause, rest, hread', -⟩
  · rw [hread] at hread'
    cases hread'
    exact hchunk
  · rw [hread] at hread'
    cases hread'

/-- A chunk that is written to the end of the file makes it hold more of the payload. -/
theorem Keeps.write {missing tail : Bytes} {barrier : Option FaultKind} {id : FileId}
    (h : Keeps payload u d id) (haccounts : u.Accounts payload missing tail barrier)
    (hrecord : d.record? id ≠ none) {file : Handle} {staged : Option Path} {bytes : Bytes}
    {body : Source} (hstage : u.stage = .copying file staged) (htarget : file.target = .file id)
    (hclean : file.failure = none)
    (hread : Source.exactly (min v.chunkSize u.remaining) u.body = (.ok bytes, body)) :
    Keeps payload
      { u with
        body
        remaining := u.remaining - min v.chunkSize u.remaining
        stage := .copying { file with offset := file.offset + bytes.length } staged }
      (d.overwrite id ((d.contentOf id).writeAt file.offset bytes)) id := by
  have hhandle : u.handle? = some file := by rw [Upload.handle?, hstage]
  have hintact : u.Intact := by
    rw [Upload.Intact, hstage]
    exact hclean
  have hwant : min v.chunkSize u.remaining ≤ u.remaining := Nat.min_le_right ..
  have hgood : u.Fed payload missing tail barrier := by
    cases haccounts with
    | good fed _ _ => exact fed
    | cutOff cause hcause _ =>
      rw [Upload.outcome?, hstage] at hcause
      cases hcause
  have hbytes := bytes_of_read hgood hwant hread
  have hoffset := h.offset hintact file hhandle
  have hcontent := h.content hintact
  have hnew : (d.overwrite id ((d.contentOf id).writeAt file.offset bytes)).contentOf id =
      (d.contentOf id).writeAt file.offset bytes := by
    rw [contentOf_overwrite hrecord, if_pos rfl]
  have hwritten : ((d.contentOf id).writeAt file.offset bytes).bytes =
      (d.contentOf id).bytes ++ bytes := by
    rw [hoffset, Content.bytes_writeAt_size]
  refine ⟨?_, ?_, ?_⟩
  · intro file' hfile
    cases hfile
    exact htarget
  · intro _ file' hfile
    cases hfile
    rw [hnew, ← Content.length_bytes, hwritten, List.length_append, Content.length_bytes, hoffset]
  · intro _
    have hle := hgood.remaining_le
    rw [hnew, hwritten, hcontent, hbytes, ← List.take_add]
    congr 1
    dsimp only
    omega

theorem Move.holding {missing tail : Bytes} {barrier : Option FaultKind}
    (h : Holding v root user name payload u d) (htree : Orderly v root d₀ d)
    (hu : Placed v user name u) (haccounts : u.Accounts payload missing tail barrier)
    {fault : Option Errno} (hmove : Move v root user name fault d u u' d') :
    Holding v root user name payload u' d' := by
  cases hmove with
  | idle _ hquiet => exact hquiet.holding h hu
  | published | discarded => exact holding_settle _
  | prepared turn stage hstage hstage' =>
    have hremaining := h.fresh (.inl hstage)
    rcases hstage' with rfl | rfl <;> exact holding_of_none rfl fun _ => hremaining
  | madeAside number hstage hatomic hfits hnone =>
    have hremaining := h.fresh (.inr (.inr hstage))
    have hempty : (putNew d root (.staged number)).contentOf d.nextFile = .empty := by
      rw [putNew, contentOf_addFile, if_pos rfl]
    refine holding_of_some rfl (.aside hatomic number hfits) ?_
      (keeps_empty rfl rfl rfl hempty hremaining)
    rw [node?_putNew, if_pos rfl]
  | madeInPlace hstage hatomic hfolder hnone =>
    have hremaining := h.fresh (.inr (.inr hstage))
    have hempty : (putNew d root (.file user name)).contentOf d.nextFile = .empty := by
      rw [putNew, contentOf_addFile, if_pos rfl]
    refine holding_of_some rfl (.inPlace hatomic) ?_ (keeps_empty rfl rfl rfl hempty hremaining)
    rw [node?_putNew, if_pos rfl]
  | emptied id hstage hatomic hnode =>
    have hremaining := h.fresh (.inr (.inr hstage))
    have hempty : (d.overwrite id .empty).contentOf id = .empty := by
      rw [contentOf_overwrite (htree.usable hnode).record?_ne_none, if_pos rfl]
    refine holding_of_some rfl (.inPlace hatomic) ?_ (keeps_empty rfl rfl rfl hempty hremaining)
    rw [node?_overwrite, hnode]
  | wrote file staged id bytes body hstage htarget hclean hread =>
    have hopened : u.opened? = some staged := by rw [Upload.opened?, hstage]
    have hhandle : u.handle? = some file := by rw [Upload.handle?, hstage]
    obtain ⟨spot, id', hown, hnode, hkeeps⟩ := h.exists_file hu hopened
    obtain rfl := hkeeps.id_eq hhandle htarget
    have hrecord := (htree.usable hnode).record?_ne_none
    exact holding_of_some rfl hown (by rw [node?_overwrite, hnode])
      (hkeeps.write haccounts hrecord hstage htarget hclean hread)

end UserVault.Vault
