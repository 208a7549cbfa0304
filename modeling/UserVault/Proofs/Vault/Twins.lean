import UserVault.Proofs.Vault.Alike
import UserVault.Proofs.Vault.Numbers
import UserVault.Proofs.Vault.Standing

/-!
# Twins

Two uploads of the same user's file, on two disks that are alike, are twins if they stand at the
same point with the same payload, with files open that correspond.  When twins take a step each,
and the system treats both alike, they stay twins and the disks stay alike.  The same holds of
removals.
-/

namespace UserVault.Vault

open Disk Link

variable {v : Vault} {root : Place} {d₀ d d' d₁ d₁' : Disk} {user : UInt32} {name : Bytes}
  {u u' : Upload} {s s' : State} {fault : Option Errno} {W : Spot → Prop}
  {ρ ρ' : FileId → FileId → Prop}

/-! ## 1. Turns -/

/-- A turn, whatever lock it is about. -/
def Turn.form : Turn → Turn
  | .waiting _ => .waiting 0
  | .inside _ => .inside 0
  | .released _ => .released 0
  | turn => turn

theorem Turn.form_next {turn turn' : Turn} (h : turn'.form = turn.form) (path path' : Path)
    (t t' : Turns) : (turn'.next path' t').1.form = (turn.next path t).1.form := by
  cases turn <;> cases turn' <;> first | rfl | cases h

theorem Turn.eq_gone_iff {turn turn' : Turn} (h : turn'.form = turn.form) :
    turn' = .gone ↔ turn = .gone := by
  cases turn <;> cases turn' <;> simp [form] at h ⊢

theorem Turn.inside_iff {turn turn' : Turn} (h : turn'.form = turn.form) :
    (∃ id, turn' = .inside id) ↔ ∃ id, turn = .inside id := by
  cases turn <;> cases turn' <;> simp [form] at h ⊢

/-! ## 2. Uploads -/

/-- Two handles for files that correspond. -/
structure Handle.Twin (ρ : FileId → FileId → Prop) (file file' : Handle) : Prop where
  target : ∃ id id', file.target = .file id ∧ file'.target = .file id' ∧ ρ id id'
  offset : file'.offset = file.offset
  failure : file'.failure = file.failure

/-- The files that two uploads have opened: both are the user's file itself, or both stand aside
and correspond. -/
inductive Counterpart (v : Vault) (root : Place) (ρ : FileId → FileId → Prop) (d d' : Disk) :
    Option Path → Option Path → Prop
  | inPlace : Counterpart v root ρ d d' none none
  | aside (n n' : Nat) (id id' : FileId)
    (hnode : d.node? (Spot.under (.staged n) root) = some (.file id))
    (hnode' : d'.node? (Spot.under (.staged n') root) = some (.file id')) (hid : ρ id id')
    (hfits : ¬TooLong v n) (hfits' : ¬TooLong v n') :
    Counterpart v root ρ d d' (some (v.pathOf (.staged n))) (some (v.pathOf (.staged n')))

/-- Two stages are the same but for the files that are open. -/
inductive Stage.Twin (v : Vault) (root : Place) (ρ : FileId → FileId → Prop) (d d' : Disk) :
    Stage → Stage → Prop
  | preparing : Stage.Twin v root ρ d d' .preparing .preparing
  | takingTurn : Stage.Twin v root ρ d d' .takingTurn .takingTurn
  | opening : Stage.Twin v root ρ d d' .opening .opening
  | copying (file file' : Handle) (staged staged' : Option Path) (hfile : Handle.Twin ρ file file')
    (hstaged : Counterpart v root ρ d d' staged staged') :
    Stage.Twin v root ρ d d' (.copying file staged) (.copying file' staged')
  | flushing (file file' : Handle) (staged staged' : Option Path)
    (hfile : Handle.Twin ρ file file') (hstaged : Counterpart v root ρ d d' staged staged') :
    Stage.Twin v root ρ d d' (.flushing file staged) (.flushing file' staged')
  | syncing (file file' : Handle) (staged staged' : Option Path) (hfile : Handle.Twin ρ file file')
    (hstaged : Counterpart v root ρ d d' staged staged') :
    Stage.Twin v root ρ d d' (.syncing file staged) (.syncing file' staged')
  | publishing (staged staged' : Path)
    (hstaged : Counterpart v root ρ d d' (some staged) (some staged')) :
    Stage.Twin v root ρ d d' (.publishing staged) (.publishing staged')
  | discarding (staged staged' : Option Path) (cause : StoreError)
    (hstaged : Counterpart v root ρ d d' staged staged') :
    Stage.Twin v root ρ d d' (.discarding staged cause) (.discarding staged' cause)
  | givingTurn (result : Except StoreError Unit) :
    Stage.Twin v root ρ d d' (.givingTurn result) (.givingTurn result)
  | finished (result : Except StoreError Unit) :
    Stage.Twin v root ρ d d' (.finished result) (.finished result)

/-- An upload on disk `d` and its twin on disk `d'`. -/
structure Upload.Twin (v : Vault) (root : Place) (ρ : FileId → FileId → Prop) (d d' : Disk)
    (u u' : Upload) : Prop where
  user : u'.user = u.user
  target : u'.target = u.target
  body : u'.body = u.body
  remaining : u'.remaining = u.remaining
  turn : u'.turn.form = u.turn.form
  stage : Stage.Twin v root ρ d d' u.stage u'.stage

theorem Handle.Twin.mono {file file' : Handle} (h : Handle.Twin ρ file file')
    (hρ : ∀ id id', ρ id id' → ρ' id id') : Handle.Twin ρ' file file' := by
  obtain ⟨id, id', htarget, htarget', hid⟩ := h.target
  exact ⟨⟨id, id', htarget, htarget', hρ id id' hid⟩, h.offset, h.failure⟩

/-- Files aside go on to correspond as long as nobody touches them. -/
theorem Counterpart.mono {staged staged' : Option Path}
    (h : Counterpart v root ρ d d' staged staged') (hρ : ∀ id id', ρ id id' → ρ' id id')
    (hnode : ∀ n, staged = some (v.pathOf (.staged n)) →
      d₁.node? (Spot.under (.staged n) root) = d.node? (Spot.under (.staged n) root))
    (hnode' : ∀ n, staged' = some (v.pathOf (.staged n)) →
      d₁'.node? (Spot.under (.staged n) root) = d'.node? (Spot.under (.staged n) root)) :
    Counterpart v root ρ' d₁ d₁' staged staged' := by
  cases h with
  | inPlace => exact .inPlace
  | aside n n' id id' hn hn' hid hfits hfits' =>
    exact .aside n n' id id' ((hnode n rfl).trans hn) ((hnode' n' rfl).trans hn')
      (hρ id id' hid) hfits hfits'

/-- If one of two twins has opened the user's file itself, so has the other one. -/
theorem Upload.Twin.opened_inPlace_iff (h : Twin v root ρ d d' u u') :
    u'.opened? = some none ↔ u.opened? = some none := by
  have hopened {staged staged' : Option Path} (h : Counterpart v root ρ d d' staged staged') :
      some staged' = some none ↔ some staged = some none := by
    cases h <;> simp
  have hstage := h.stage
  unfold Upload.opened?
  generalize u.stage = st at hstage ⊢
  generalize u'.stage = st' at hstage ⊢
  cases hstage with
  | preparing | takingTurn | opening | givingTurn | finished => rfl
  | copying _ _ _ _ _ hstaged | flushing _ _ _ _ _ hstaged | syncing _ _ _ _ _ hstaged
  | publishing _ _ hstaged | discarding _ _ _ hstaged => exact hopened hstaged

/-- Twins stay twins while others work on the disks, as long as nobody touches their files
aside. -/
theorem Upload.Twin.mono (h : Twin v root ρ d d' u u') (hρ : ∀ id id', ρ id id' → ρ' id id')
    (hnode : ∀ n, u.opened? = some (some (v.pathOf (.staged n))) →
      d₁.node? (Spot.under (.staged n) root) = d.node? (Spot.under (.staged n) root))
    (hnode' : ∀ n, u'.opened? = some (some (v.pathOf (.staged n))) →
      d₁'.node? (Spot.under (.staged n) root) = d'.node? (Spot.under (.staged n) root)) :
    Twin v root ρ' d₁ d₁' u u' := by
  have hkeep {staged staged' : Option Path} (hopened : u.opened? = some staged)
      (hopened' : u'.opened? = some staged') (hopen : Counterpart v root ρ d d' staged staged') :
      Counterpart v root ρ' d₁ d₁' staged staged' :=
    hopen.mono hρ (fun n heq => hnode n (heq ▸ hopened)) fun n heq => hnode' n (heq ▸ hopened')
  refine { h with stage := ?_ }
  have hstage := h.stage
  unfold Upload.opened? at hkeep
  generalize u.stage = st at hstage hkeep ⊢
  generalize u'.stage = st' at hstage hkeep ⊢
  cases hstage with
  | preparing => exact .preparing
  | takingTurn => exact .takingTurn
  | opening => exact .opening
  | givingTurn result => exact .givingTurn result
  | finished result => exact .finished result
  | copying _ _ _ _ hfile hopen => exact .copying _ _ _ _ (hfile.mono hρ) (hkeep rfl rfl hopen)
  | flushing _ _ _ _ hfile hopen => exact .flushing _ _ _ _ (hfile.mono hρ) (hkeep rfl rfl hopen)
  | syncing _ _ _ _ hfile hopen => exact .syncing _ _ _ _ (hfile.mono hρ) (hkeep rfl rfl hopen)
  | publishing _ _ hopen => exact .publishing _ _ (hkeep rfl rfl hopen)
  | discarding _ _ cause hopen => exact .discarding _ _ cause (hkeep rfl rfl hopen)

theorem Upload.Twin.settle (h : Twin v root ρ d d' u u') (result : Except StoreError Unit) :
    Twin v root ρ d₁ d₁' (u.settle result) (u'.settle result) := by
  refine ⟨h.user, h.target, h.body, h.remaining, h.turn, ?_⟩
  have hgone := Turn.eq_gone_iff h.turn
  unfold Upload.settle
  by_cases hturn : u.turn = .gone
  · rw [if_pos hturn, if_pos (hgone.mpr hturn)]
    exact .finished result
  · rw [if_neg hturn, if_neg fun heq => hturn (hgone.mp heq)]
    exact .givingTurn result

theorem Upload.Twin.withStage (h : Twin v root ρ d d' u u') {stage stage' : Stage}
    (hstage : Stage.Twin v root ρ' d₁ d₁' stage stage') :
    Twin v root ρ' d₁ d₁' { u with stage } { u' with stage := stage' } :=
  ⟨h.user, h.target, h.body, h.remaining, h.turn, hstage⟩

/-- What twins have come to is the same. -/
theorem Upload.Twin.result?_eq (h : Twin v root ρ d d' u u') : u'.result? = u.result? := by
  have hstage := h.stage
  unfold Upload.result?
  generalize u.stage = st at hstage ⊢
  generalize u'.stage = st' at hstage ⊢
  cases hstage <;> rfl

theorem Upload.Twin.settled?_eq (h : Twin v root ρ d d' u u') : u'.settled? = u.settled? := by
  have hstage := h.stage
  unfold Upload.settled?
  generalize u.stage = st at hstage ⊢
  generalize u'.stage = st' at hstage ⊢
  cases hstage <;> rfl

/-- The twin of an upload with a file aside has one too. -/
theorem Upload.Twin.exists_staged (h : Twin v root ρ d d' u u') {n' : Nat}
    (hopened' : u'.opened? = some (some (v.pathOf (.staged n')))) :
    ∃ n, u.opened? = some (some (v.pathOf (.staged n))) ∧ Taken root d n ∧ ¬TooLong v n := by
  have hstage := h.stage
  have hcounterpart {staged staged' : Option Path} (hopened : u.opened? = some staged)
      (heq : staged' = some (v.pathOf (.staged n')))
      (hopen : Counterpart v root ρ d d' staged staged') :
      ∃ n, u.opened? = some (some (v.pathOf (.staged n))) ∧ Taken root d n ∧ ¬TooLong v n := by
    cases hopen with
    | inPlace => cases heq
    | aside n _ id _ hnode _ _ hfits _ =>
      refine ⟨n, hopened, ?_, hfits⟩
      rw [Taken, hnode]
      exact Option.some_ne_none _
  unfold Upload.opened? at hopened' hcounterpart ⊢
  generalize u.stage = st at hstage hcounterpart ⊢
  generalize u'.stage = st' at hstage hopened'
  cases hstage with
  | preparing | takingTurn | opening | givingTurn | finished => cases hopened'
  | copying _ _ _ _ _ hopen | flushing _ _ _ _ _ hopen | syncing _ _ _ _ _ hopen
  | publishing _ _ hopen | discarding _ _ _ hopen =>
    exact hcounterpart rfl (Option.some.inj hopened') hopen

/-! ## 3. Steps of twins -/

/-- The failure of the system that the next step of an upload meets: the one that comes from
outside, or that no number is left for a file aside. -/
def Upload.met (v : Vault) (fault : Option Errno) (u : Upload) (d : Disk) : Option Errno :=
  match fault, u.stage with
  | none, .opening =>
    if v.options.atomic ∧ TooLong v (Upload.freeNumber v d) then some .nameTooLong else none
  | fault, _ => fault

theorem Upload.met_of_ne (h : u.stage ≠ .opening) : u.met v fault d = fault := by
  unfold Upload.met
  cases fault with
  | some e => rfl
  | none =>
    split
    next heq => exact absurd heq h
    next => rfl

theorem Upload.discard_eq {staged : Option Path} {spot : Spot}
    (hcall : d.unlink (staged.getD u.target) =
      if (d.node? (spot.under root)).isSome then .ok (take d root spot) else .error .noEntry) :
    u.discard staged d = clear d root spot := by
  rw [Upload.discard, hcall, clear]
  by_cases hnode : (d.node? (spot.under root)).isSome
  · rw [if_pos hnode, if_pos hnode]
  · rw [if_neg hnode, if_neg hnode]

/-- Two uploads and their disks after a step: they are twins, and the disks are alike. -/
def Upload.InStep (v : Vault) (root : Place) (W : Spot → Prop) (ρ : FileId → FileId → Prop)
    (d d' : Disk) (r r' : Upload × State) : Prop :=
  ∃ ρ', Grows d d' ρ ρ' ∧ Alike root W ρ' r.2.disk r'.2.disk ∧
    Twin v root ρ' r.2.disk r'.2.disk r.1 r'.1

theorem Upload.inStep_of_same {r r' : Upload × State} (halike : Alike root W ρ r.2.disk r'.2.disk)
    (htwin : Twin v root ρ r.2.disk r'.2.disk r.1 r'.1) : InStep v root W ρ d d' r r' :=
  ⟨ρ, Grows.refl _ _ ρ, halike, htwin⟩

section
variable (hbase : EmptyBase v d₀ root) (htree : Orderly v root d₀ s.disk)
  (htree' : Orderly v root d₀ s'.disk) (halike : Alike root W ρ s.disk s'.disk)
  (htwin : Upload.Twin v root ρ s.disk s'.disk u u')
include hbase htree htree' halike htwin

/-- Twins open their files. -/
theorem Upload.Twin.openFile (hname : accepts name) (hu : Placed v user name u)
    (hstage : u.stage = .opening) (hfile : W (.file user name)) (hstaged : ∀ n, ¬W (.staged n))
    (hfolder : ∃ node, s.disk.node? (Spot.under (.folder user) root) = some node)
    (hfolder' : ∃ node, s'.disk.node? (Spot.under (.folder user) root) = some node)
    (fault : Option Errno) (hfits : u.met v fault s.disk = none → v.options.atomic = true →
      ¬TooLong v (Upload.freeNumber v s'.disk)) :
    InStep v root W ρ s.disk s'.disk (u.openFile v fault s)
      (u'.openFile v (u.met v fault s.disk) s') := by
  have htarget : u'.target = u.target := htwin.target
  have hremaining : u'.remaining = u.remaining := htwin.remaining
  dsimp only [Upload.openFile]
  cases hatomic : v.options.atomic with
  | true =>
    simp only [if_true]
    rw [createNew_stagedPath hbase htree, createNew_stagedPath hbase htree']
    cases fault with
    | some e =>
      simp only [Upload.met, attempt, hremaining]
      exact inStep_of_same halike (htwin.settle _)
    | none =>
      by_cases hlong : TooLong v (freeNumber v s.disk)
      · simp only [Upload.met, hstage, hatomic, hlong, and_self, if_true, attempt, hremaining]
        exact inStep_of_same halike (htwin.settle _)
      · have hmet : u.met v none s.disk = none := by simp [Upload.met, hstage, hlong]
        have hlong' := hfits hmet hatomic
        rw [hmet, if_neg hlong, if_neg hlong']
        simp only [attempt]
        refine ⟨_, grows_joined _ _ ρ, halike.putNew fun s hs => ?_, htwin.withStage ?_⟩
        · constructor <;> (rintro rfl; exact absurd hs (hstaged _))
        · rw [stagedPath_eq, stagedPath_eq]
          refine .copying _ _ _ _ ⟨⟨_, _, rfl, rfl, .inr ⟨rfl, rfl⟩⟩, rfl, rfl⟩ ?_
          refine .aside _ _ _ _ ?_ ?_ (.inr ⟨rfl, rfl⟩) hlong hlong'
          · rw [node?_putNew, if_pos rfl]
          · rw [node?_putNew, if_pos rfl]
  | false =>
    have hmet : u.met v fault s.disk = fault := by
      cases fault <;> simp [Upload.met, hstage, hatomic]
    have hcall := htree.create_file hbase user hname
    have hcall' := htree'.create_file hbase user hname
    rw [if_pos (Option.isSome_iff_exists.mpr hfolder), ← hu.target_eq] at hcall
    rw [if_pos (Option.isSome_iff_exists.mpr hfolder'), ← hu.target_eq, ← htarget] at hcall'
    simp only [if_false, Bool.false_eq_true, hmet]
    rw [hcall, hcall']
    cases fault with
    | some e =>
      simp only [attempt, hremaining]
      exact inStep_of_same halike (htwin.settle _)
    | none =>
      simp only [attempt]
      have hpair := halike.node _ hfile
      generalize hnode : s.disk.node? (Spot.under (.file user name) root) = node at hpair ⊢
      generalize hnode' : s'.disk.node? (Spot.under (.file user name) root) = node' at hpair ⊢
      cases hpair with
      | vacant =>
        refine ⟨_, grows_joined _ _ ρ, halike.putNew fun _ _ => Iff.rfl, htwin.withStage ?_⟩
        exact .copying _ _ _ _ ⟨⟨_, _, rfl, rfl, .inr ⟨rfl, rfl⟩⟩, rfl, rfl⟩ .inPlace
      | directory mode =>
        rcases htree.file_cases user name with hnone | ⟨id, hsome, -⟩
        · cases hnode.symm.trans hnone
        · cases hnode.symm.trans hsome
      | file id id' hid =>
        refine inStep_of_same (halike.overwrite hid _) (htwin.withStage ?_)
        exact .copying _ _ _ _ ⟨⟨id, id', rfl, rfl, hid⟩, rfl, rfl⟩ .inPlace

omit hbase htree htree' in
/-- Twins read and write the same chunk. -/
theorem Upload.Twin.copyChunk {file file' : Handle} {staged staged' : Option Path}
    (hfile : Handle.Twin ρ file file')
    (hstaged : Counterpart v root ρ s.disk s'.disk staged staged') (fault : Option Errno) :
    InStep v root W ρ s.disk s'.disk (u.copyChunk v fault file staged s)
      (u'.copyChunk v fault file' staged' s') := by
  obtain ⟨id, id', htarget, htarget', hid⟩ := hfile.target
  dsimp only [Upload.copyChunk]
  rw [htwin.body, htwin.remaining]
  generalize Source.exactly (min v.chunkSize u.remaining) u.body = read
  obtain ⟨result, body⟩ := read
  have htwins {stage stage' : Stage} {d d' : Disk} (remaining : Nat)
      (hstage : Stage.Twin v root ρ d d' stage stage') :
      Twin v root ρ d d' { u with body, remaining, stage }
        { u' with body, remaining, stage := stage' } :=
    ⟨htwin.user, htwin.target, rfl, rfl, htwin.turn, hstage⟩
  cases result with
  | error cause => exact inStep_of_same halike (htwins _ (.discarding _ _ _ hstaged))
  | ok bytes =>
    dsimp only [Disk.write]
    rw [hfile.failure]
    cases file.failure with
    | some e => exact inStep_of_same halike (htwins _ (.discarding _ _ _ hstaged))
    | none =>
      simp only [perform, htarget, htarget']
      cases fault with
      | none =>
        -- what is written depends on what the file holds, which is the same
        simp only [attempt]
        rw [halike.contentOf hid, hfile.offset]
        have hkept : Counterpart v root ρ
            (s.disk.overwrite id ((s.disk.contentOf id).writeAt file.offset bytes))
            (s'.disk.overwrite id' ((s.disk.contentOf id).writeAt file.offset bytes))
            staged staged' :=
          hstaged.mono (fun _ _ h => h) (fun _ _ => node?_overwrite _ _ _)
            fun _ _ => node?_overwrite _ _ _
        refine inStep_of_same (halike.overwrite hid _) (htwins _ (.copying _ _ _ _ ?_ hkept))
        exact ⟨⟨id, id', rfl, rfl, hid⟩, rfl, rfl⟩
      | some e =>
        simp only [attempt]
        by_cases hlarge : maxHandover < bytes.length
        · simp only [hlarge, if_true]
          exact inStep_of_same halike (htwins _ (.discarding _ _ _ hstaged))
        · simp only [hlarge, if_false]
          refine inStep_of_same halike (htwins _ (.copying _ _ _ _ ?_ hstaged))
          exact ⟨⟨id, id', rfl, rfl, hid⟩, hfile.offset, rfl⟩

/-- Twins put their files in their places. -/
theorem Upload.Twin.publish (hname : accepts name) (hu : Placed v user name u)
    (hstaged : ∀ n, ¬W (.staged n))
    (hfolder : ∃ node, s.disk.node? (Spot.under (.folder user) root) = some node)
    (hfolder' : ∃ node, s'.disk.node? (Spot.under (.folder user) root) = some node)
    {staged staged' : Path}
    (hopen : Counterpart v root ρ s.disk s'.disk (some staged) (some staged'))
    (hstage : u.stage = .publishing staged) (hstage' : u'.stage = .publishing staged')
    (fault : Option Errno) :
    InStep v root W ρ s.disk s'.disk (u.step v fault s) (u'.step v fault s') := by
  simp only [Upload.step, hstage, hstage']
  cases fault with
  | some e =>
    simp only [attempt]
    exact inStep_of_same halike (htwin.withStage (.discarding _ _ _ hopen))
  | none =>
    simp only [attempt]
    generalize hpath : some staged = path at hopen
    generalize hpath' : some staged' = path' at hopen
    cases hopen with
    | inPlace => cases hpath
    | aside n n' id id' hnode hnode' hid hfits hfits' =>
      cases hpath
      cases hpath'
      have hcall := htree.rename_staged hbase n user hname
      have hcall' := htree'.rename_staged hbase n' user hname
      rw [if_neg hfits, hnode, ← hu.target_eq] at hcall
      rw [if_neg hfits', hnode', ← hu.target_eq, ← htwin.target] at hcall'
      simp only [Option.isSome_iff_exists.mpr hfolder, if_true] at hcall
      simp only [Option.isSome_iff_exists.mpr hfolder', if_true] at hcall'
      rw [hcall, hcall']
      exact inStep_of_same (halike.move hid _ (hstaged n) (hstaged n')) (htwin.settle _)

/-- Twins take away what they have written. -/
theorem Upload.Twin.discards (hname : accepts name) (hu : Placed v user name u)
    (hstaged : ∀ n, ¬W (.staged n))
    {staged staged' : Option Path} {cause : StoreError}
    (hopen : Counterpart v root ρ s.disk s'.disk staged staged') :
    InStep v root W ρ s.disk s'.disk
      (u.settle (.error cause), { s with disk := u.discard staged s.disk })
      (u'.settle (.error cause), { s' with disk := u'.discard staged' s'.disk }) := by
  cases hopen with
  | inPlace =>
    have hdisk : u.discard none s.disk = clear s.disk root (.file user name) := by
      refine discard_eq ?_
      rw [Option.getD_none, hu.target_eq]
      exact htree.unlink_file hbase user hname
    have hdisk' : u'.discard none s'.disk = clear s'.disk root (.file user name) := by
      refine discard_eq ?_
      rw [Option.getD_none, htwin.target, hu.target_eq]
      exact htree'.unlink_file hbase user hname
    rw [hdisk, hdisk']
    exact inStep_of_same (halike.clear fun _ _ => Iff.rfl) (htwin.settle _)
  | aside n n' id id' hnode hnode' hid hfits hfits' =>
    have hdisk : u.discard (some (v.pathOf (.staged n))) s.disk =
        clear s.disk root (.staged n) := by
      have hcall := htree.unlink_staged hbase n
      rw [if_neg hfits] at hcall
      exact discard_eq hcall
    have hdisk' : u'.discard (some (v.pathOf (.staged n'))) s'.disk =
        clear s'.disk root (.staged n') := by
      have hcall := htree'.unlink_staged hbase n'
      rw [if_neg hfits'] at hcall
      exact discard_eq hcall
    rw [hdisk, hdisk']
    refine inStep_of_same (halike.clear fun s hs => ?_) (htwin.settle _)
    constructor <;> (rintro rfl; exact absurd hs (hstaged _))

/-- A step of an upload and the same step of its twin. -/
theorem Upload.Twin.step (hname : accepts name) (hu : Placed v user name u)
    (hfolder : u.Underway → ∃ node, s.disk.node? (Spot.under (.folder user) root) = some node)
    (hfolder' : u'.Underway → ∃ node, s'.disk.node? (Spot.under (.folder user) root) = some node)
    (hfile : u.stage = .opening → W (.file user name)) (hstaged : ∀ n, ¬W (.staged n))
    (fault : Option Errno)
    (hfits : u.met v fault s.disk = none → u.stage = .opening → v.options.atomic = true →
      ¬TooLong v (Upload.freeNumber v s'.disk)) :
    InStep v root W ρ s.disk s'.disk (u.step v fault s)
      (u'.step v (u.met v fault s.disk) s') := by
  have hmet (h : u.stage ≠ .opening) : u.met v fault s.disk = fault := met_of_ne h
  have hremaining : u'.remaining = u.remaining := htwin.remaining
  have hstages := htwin.stage
  generalize hstage : u.stage = st at hstages
  generalize hstage' : u'.stage = st' at hstages
  cases hstages with
  | preparing =>
    rw [hmet (by simp [hstage])]
    have hcall : s.disk.makeDirectories (v.userDirectory u.user) =
        (.ok (), withFolder s.disk root user) := by
      rw [hu.user_eq, htree.makeDirectories_folder hbase]
    have hcall' : s'.disk.makeDirectories (v.userDirectory u'.user) =
        (.ok (), withFolder s'.disk root user) := by
      rw [htwin.user, hu.user_eq, htree'.makeDirectories_folder hbase]
    cases fault with
    | some e =>
      simp only [Upload.step, hstage, hstage', hremaining]
      exact inStep_of_same halike (htwin.settle _)
    | none =>
      have halike' := halike.withFolder user
      simp only [Upload.step, hstage, hstage', hcall, hcall']
      by_cases hexclusive : v.options.exclusive
      · rw [if_pos hexclusive, if_pos hexclusive]
        exact inStep_of_same halike'
          ⟨htwin.user, htwin.target, htwin.body, htwin.remaining, rfl, .takingTurn⟩
      · rw [if_neg hexclusive, if_neg hexclusive]
        exact inStep_of_same halike' (htwin.withStage .opening)
  | takingTurn =>
    rw [hmet (by simp [hstage])]
    have hform := Turn.form_next htwin.turn u.target u'.target s.turns s'.turns
    have hinside := Turn.inside_iff hform
    have htwins {stage : Stage} (hstage : Stage.Twin v root ρ s.disk s'.disk stage stage) :
        Twin v root ρ s.disk s'.disk
          { u with stage, turn := (u.turn.next u.target s.turns).1 }
          { u' with stage, turn := (u'.turn.next u'.target s'.turns).1 } :=
      ⟨htwin.user, htwin.target, htwin.body, htwin.remaining, hform, hstage⟩
    simp only [Upload.step, hstage, hstage', State.advance]
    split
    next id hturn =>
      obtain ⟨id', hturn'⟩ := hinside.mpr ⟨id, hturn⟩
      rw [hturn']
      have hboth := htwins .opening
      rw [hturn'] at hboth
      exact inStep_of_same halike hboth
    next hturn =>
      split
      next id' hturn' =>
        obtain ⟨id, hturn''⟩ := hinside.mp ⟨id', hturn'⟩
        exact absurd hturn'' (hturn id)
      next =>
        exact inStep_of_same halike (htwins .takingTurn)
  | opening =>
    simp only [Upload.step, hstage, hstage']
    exact htwin.openFile hbase htree htree' halike hname hu hstage (hfile hstage) hstaged
      (hfolder (.inr (.inl hstage))) (hfolder' (.inr (.inl hstage'))) fault
      fun hnone => hfits hnone hstage
  | copying file file' staged staged' hhandle hopen =>
    rw [hmet (by simp [hstage])]
    simp only [Upload.step, hstage, hstage']
    by_cases hzero : u.remaining = 0
    · rw [if_pos hzero, if_pos (hremaining.trans hzero)]
      exact inStep_of_same halike (htwin.withStage (.flushing _ _ _ _ hhandle hopen))
    · rw [if_neg hzero, if_neg fun heq => hzero (hremaining.symm.trans heq)]
      exact htwin.copyChunk halike hhandle hopen fault
  | flushing file file' staged staged' hhandle hopen =>
    rw [hmet (by simp [hstage])]
    have hflush : file'.flush = file.flush := by rw [Handle.flush, hhandle.failure, Handle.flush]
    simp only [Upload.step, hstage, hstage', hflush]
    cases attempt fault file.flush with
    | error e => exact inStep_of_same halike (htwin.withStage (.discarding _ _ _ hopen))
    | ok _ => exact inStep_of_same halike (htwin.withStage (.syncing _ _ _ _ hhandle hopen))
  | syncing file file' staged staged' hhandle hopen =>
    rw [hmet (by simp [hstage])]
    obtain ⟨id, id', htarget, htarget', -⟩ := hhandle.target
    have hsync : file'.sync = file.sync := by rw [Handle.sync, htarget', Handle.sync, htarget]
    simp only [Upload.step, hstage, hstage', hsync]
    cases attempt fault file.sync with
    | error e => exact inStep_of_same halike (htwin.withStage (.discarding _ _ _ hopen))
    | ok _ =>
      cases hopen with
      | inPlace => exact inStep_of_same halike (htwin.settle _)
      | aside n n' id id' hnode hnode' hid hfits hfits' =>
        exact inStep_of_same halike (htwin.withStage
          (.publishing _ _ (.aside n n' id id' hnode hnode' hid hfits hfits')))
  | publishing staged staged' hopen =>
    rw [hmet (by simp [hstage])]
    have hopened : u.opened? ≠ none := by
      rw [Upload.opened?, hstage]
      exact Option.some_ne_none _
    have hopened' : u'.opened? ≠ none := by
      rw [Upload.opened?, hstage']
      exact Option.some_ne_none _
    exact htwin.publish hbase htree htree' halike hname hu hstaged
      (hfolder (.inr (.inr hopened))) (hfolder' (.inr (.inr hopened'))) hopen hstage hstage' fault
  | discarding staged staged' cause hopen =>
    simp only [Upload.step, hstage, hstage']
    exact htwin.discards hbase htree htree' halike hname hu hstaged hopen
  | givingTurn result =>
    have hform := Turn.form_next htwin.turn u.target u'.target s.turns s'.turns
    have hgone := Turn.eq_gone_iff hform
    simp only [Upload.step, hstage, hstage', State.advance]
    refine inStep_of_same halike ⟨htwin.user, htwin.target, htwin.body, htwin.remaining, hform, ?_⟩
    dsimp only
    by_cases hturn : (u.turn.next u.target s.turns).1 = .gone
    · simp only [hturn, hgone.mpr hturn, if_true]
      exact .finished result
    · simp only [hturn, mt hgone.mp hturn, if_false]
      exact .givingTurn result
  | finished result =>
    simp only [Upload.step, hstage, hstage']
    exact inStep_of_same halike htwin

end

/-! ## 4. Removals -/

/-- A removal and its twin. -/
structure Removal.Twin (r r' : Removal) : Prop where
  target : r'.target = r.target
  turn : r'.turn.form = r.turn.form
  stage : r'.stage = r.stage

theorem Removal.Twin.settle {r r' : Removal} (h : Twin r r') (result : Except VaultError Removed) :
    Twin (r.settle result) (r'.settle result) := by
  refine ⟨h.target, h.turn, ?_⟩
  unfold Removal.settle
  simp only [Turn.eq_gone_iff h.turn]

theorem Removal.Twin.result?_eq {r r' : Removal} (h : Twin r r') : r'.result? = r.result? := by
  rw [Removal.result?, Removal.result?, h.stage]

/-- A step of a removal and the same step of its twin. -/
theorem Removal.Twin.step {r r' : Removal} (h : Twin r r') (hbase : EmptyBase v d₀ root)
    (htree : Orderly v root d₀ s.disk) (htree' : Orderly v root d₀ s'.disk)
    (halike : Alike root W ρ s.disk s'.disk) (hname : accepts name)
    (htarget : r.target = v.pathOf (.file user name))
    (hfile : r.stage = .unlinking → W (.file user name)) (fault : Option Errno) :
    Alike root W ρ (r.step fault s).2.disk (r'.step fault s').2.disk ∧
      Twin (r.step fault s).1 (r'.step fault s').1 := by
  have hform := Turn.form_next h.turn r.target r'.target s.turns s'.turns
  have hstage' := h.stage
  cases hstage : r.stage with
  | takingTurn =>
    rw [hstage] at hstage'
    have hinside := Turn.inside_iff hform
    simp only [Removal.step, hstage, hstage', State.advance]
    split
    next id hturn =>
      obtain ⟨id', hturn'⟩ := hinside.mpr ⟨id, hturn⟩
      rw [hturn'] at hform ⊢
      exact ⟨halike, h.target, hform, rfl⟩
    next hturn =>
      split
      next id' hturn' =>
        obtain ⟨id, hturn''⟩ := hinside.mp ⟨id', hturn'⟩
        exact absurd hturn'' (hturn id)
      next => exact ⟨halike, h.target, hform, rfl⟩
  | unlinking =>
    rw [hstage] at hstage'
    have hcall := htree.unlink_file hbase user hname
    have hcall' := htree'.unlink_file hbase user hname
    rw [← htarget] at hcall
    rw [← htarget, ← h.target, (halike.node _ (hfile hstage)).isSome_eq] at hcall'
    simp only [Removal.step, hstage, hstage', hcall, hcall']
    cases fault with
    | some e => exact ⟨halike, h.settle _⟩
    | none =>
      simp only [attempt]
      by_cases hnode : (s.disk.node? (Spot.under (.file user name) root)).isSome
      · -- the file is taken away on both disks
        have hcleared : Alike root W ρ (clear s.disk root (.file user name))
            (clear s'.disk root (.file user name)) :=
          halike.clear fun _ _ => Iff.rfl
        rw [clear, clear, (halike.node _ (hfile hstage)).isSome_eq, if_pos hnode, if_pos hnode]
          at hcleared
        simp only [hnode, if_true]
        exact ⟨hcleared, h.settle _⟩
      · simp only [hnode]
        exact ⟨halike, h.settle _⟩
  | givingTurn result =>
    rw [hstage] at hstage'
    simp only [Removal.step, hstage, hstage', State.advance]
    refine ⟨halike, h.target, hform, ?_⟩
    have hgone := Turn.eq_gone_iff hform
    by_cases hturn : (r.turn.next r.target s.turns).1 = .gone
    · simp only [hturn, hgone.mpr hturn, if_true]
    · simp only [hturn, mt hgone.mp hturn, if_false]
  | finished result =>
    rw [hstage] at hstage'
    simp only [Removal.step, hstage, hstage']
    exact ⟨halike, h⟩

end UserVault.Vault
