import UserVault.Proofs.Vault.Holding

/-!
# Stores that run alone

A store of a user's file that nobody disturbs, on an orderly disk and with no call of the system
failing for reasons of its own, either puts the payload in the place of the file or, where the
payload is cut off, leaves nothing of it behind; and nothing else on the disk changes, except that
the user may have a directory now.
-/

namespace UserVault.Vault

open Disk Link

variable {v : Vault} {root : Place} {d₀ d d' : Disk} {user : UInt32} {name : Bytes} {u u' : Upload}
  {payload missing tail : Bytes} {barrier : Option FaultKind}

/-- The outcome of an upload that has nothing more to do on the disk. -/
def Upload.settled? (u : Upload) : Option (Except StoreError Unit) :=
  match u.stage with
  | .givingTurn result | .finished result => some result
  | _ => none

theorem settled?_settle (u : Upload) (result : Except StoreError Unit) :
    (u.settle result).settled? = some result := by
  unfold Upload.settled?
  rcases u.stage_settle result with hstage | hstage <;> rw [hstage]

/-- What a store comes to that started on disk `d`, and the disk after it. -/
inductive Ends (v : Vault) (root : Place) (user : UInt32) (name payload : Bytes) (d : Disk) :
    Except StoreError Unit → Disk → Prop
  | stored (d' : Disk) (hkept : SpotsKept root (· = .file user name) (withFolder d root user) d')
    (id : FileId)
    (hnode : d'.node? (Spot.under (.file user name) root) = some (.file id))
    (hcontent : (d'.contentOf id).bytes = payload) : Ends v root user name payload d (.ok ()) d'
  | refused (error : StoreError) (d' : Disk) (hatomic : v.options.atomic = true)
    (hwhy : (∃ fault, error = .transport fault) ∨
      ∃ number, d.node? (Spot.under (.staged number) root) ≠ none)
    (hkept : SpotsKept root (fun _ => False) (withFolder d root user) d') :
    Ends v root user name payload d (.error error) d'
  | lost (fault : Fault) (d' : Disk) (hatomic : v.options.atomic = false)
    (hkept : SpotsKept root (· = .file user name) (withFolder d root user) d')
    (hnone : d'.node? (Spot.under (.file user name) root) = none) :
    Ends v root user name payload d (.error (.transport fault)) d'

/-- The disk after a part of a store that started on disk `d`.  Once the user has a directory, all
that changes from then on is at the spot of the upload. -/
inductive Progress (v : Vault) (root : Place) (user : UInt32) (name payload : Bytes) (d : Disk)
    (u : Upload) (d' : Disk) : Prop
  | untouched (hstage : u.stage = .preparing) (hdisk : d' = d)
  | ready (hstage : u.stage = .takingTurn ∨ u.stage = .opening)
    (hdisk : d' = withFolder d root user)
  | underway (staged : Option Path) (spot : Spot) (hopened : u.opened? = some staged)
    (hown : Own v user name staged spot)
    (hkept : SpotsKept root (· = spot) (withFolder d root user) d')
    (hvacant : v.options.atomic = true →
      (withFolder d root user).node? (spot.under root) = none)
    (hclean : ∀ file, u.handle? = some file → file.failure = none)
    (hcause : ∀ staged cause, u.stage = .discarding staged cause →
      ∃ fault, cause = .transport fault)
  | ended (result : Except StoreError Unit) (hsettled : u.settled? = some result)
    (hends : Ends v root user name payload d result d')

/-! ## 1. Opening -/

theorem not_tooLong_zero (hbase : EmptyBase v d₀ root) : ¬TooLong v 0 := by
  have hsize := v.base.size_append_le (Spot.steps (.staged 0))
  have hroom := hbase.room
  have hstaging : stagingName.length = 8 := by
    rw [stagingName_eq]
    rfl
  have hname : (stagedName 0).length = 8 := by
    rw [stagedName, stagedStem_eq, Decimal.encode]
    rfl
  simp only [Spot.steps, Path.reach, List.foldl_cons, List.foldl_nil, Bool.toNat_false] at hsize
  rintro (hlong | hlong)
  · rw [pathOf, Spot.steps] at hlong
    omega
  · have hmax : maxName = 255 := rfl
    omega

/-- Where no file is on its way in, the first number is free. -/
theorem freeNumber_eq_zero (hbase : EmptyBase v d₀ root) (h : Orderly v root d₀ d)
    (hnone : ∀ number, d.node? (Spot.under (.staged number) root) = none) :
    Upload.freeNumber v d = 0 := by
  have hlocate : d.locate (v.pathOf (.staged 0)) = _ := h.trace_staged hbase 0
  rw [if_neg (not_tooLong_zero hbase), foundAt_of_none (hnone 0)] at hlocate
  -- the search starts from 0, where nothing stands
  rw [Upload.freeNumber, List.range_succ_eq_map, List.find?_cons_of_pos]
  · rfl
  · rw [join_stagedName, hlocate]

/-- A file aside is refused only where others are on their way in. -/
theorem exists_staged_of_createNew (hbase : EmptyBase v d₀ root) (h : Orderly v root d₀ d)
    {e : Errno} (herror : d.createNew (Upload.stagedPath v d) = .error e) :
    ∃ number, d.node? (Spot.under (.staged number) root) ≠ none := by
  apply Classical.byContradiction
  intro hall
  have hnone (number : Nat) : d.node? (Spot.under (.staged number) root) = none :=
    Classical.byContradiction fun hne => hall ⟨number, hne⟩
  rw [stagedPath_eq, freeNumber_eq_zero hbase h hnone, h.createNew_staged hbase,
    if_neg (not_tooLong_zero hbase), hnone] at herror
  cases herror

/-! ## 2. Progress -/

-- The stage of an upload tells which case its progress is.

theorem Progress.of_preparing (h : Progress v root user name payload d u d')
    (hstage : u.stage = .preparing) : d' = d := by
  cases h with
  | untouched _ hdisk => exact hdisk
  | ready hready => rcases hready with hready | hready <;> rw [hstage] at hready <;> cases hready
  | underway _ _ hopened => simp [Upload.opened?, hstage] at hopened
  | ended _ hsettled => simp [Upload.settled?, hstage] at hsettled

theorem Progress.of_ready (h : Progress v root user name payload d u d')
    (hstage : u.stage = .takingTurn ∨ u.stage = .opening) : d' = withFolder d root user := by
  cases h with
  | untouched hpreparing => rcases hstage with hstage | hstage <;> simp [hstage] at hpreparing
  | ready _ hdisk => exact hdisk
  | underway _ _ hopened =>
    rcases hstage with hstage | hstage <;> simp [Upload.opened?, hstage] at hopened
  | ended _ hsettled =>
    rcases hstage with hstage | hstage <;> simp [Upload.settled?, hstage] at hsettled

theorem Progress.of_opened (h : Progress v root user name payload d u d') {staged : Option Path}
    (hopened : u.opened? = some staged) {spot : Spot} (hown : Own v user name staged spot) :
    SpotsKept root (· = spot) (withFolder d root user) d' ∧
      (∃ node, d'.node? (Spot.under (.folder user) root) = some node) ∧
      (v.options.atomic = true → (withFolder d root user).node? (spot.under root) = none) ∧
      (∀ file, u.handle? = some file → file.failure = none) ∧
      ∀ staged cause, u.stage = .discarding staged cause → ∃ fault, cause = .transport fault := by
  cases h with
  | untouched hstage => simp [Upload.opened?, hstage] at hopened
  | ready hstage =>
    rcases hstage with hstage | hstage <;> simp [Upload.opened?, hstage] at hopened
  | underway staged' spot' hopened' hown' hkept hvacant hclean hcause =>
    rw [hopened] at hopened'
    cases hopened'
    cases hown.unique hown'
    -- the directory of the user is there since the store prepared, and is not what the store owns
    obtain ⟨node, hfolder⟩ := exists_withFolder d root user
    have hne : Spot.folder user ≠ spot := by
      cases hown <;> simp
    exact ⟨hkept, ⟨node, by rw [hkept.node _ hne, hfolder]⟩, hvacant, hclean, hcause⟩
  | ended _ hsettled =>
    unfold Upload.settled? at hsettled
    unfold Upload.opened? at hopened
    split at hsettled <;> simp_all

theorem Progress.of_settled (h : Progress v root user name payload d u d')
    {result : Except StoreError Unit} (hsettled : u.settled? = some result) :
    Ends v root user name payload d result d' := by
  cases h with
  | untouched hstage => simp [Upload.settled?, hstage] at hsettled
  | ready hstage =>
    rcases hstage with hstage | hstage <;> simp [Upload.settled?, hstage] at hsettled
  | underway _ _ hopened =>
    unfold Upload.settled? at hsettled
    unfold Upload.opened? at hopened
    split at hsettled <;> simp_all
  | ended result' hsettled' hends =>
    rw [hsettled] at hsettled'
    cases hsettled'
    exact hends

/-- The upload goes on with its file, and the disk has changed at the spot of the file only. -/
theorem Progress.go_on (h : Progress v root user name payload d u d') {d'' : Disk}
    {staged : Option Path} {spot : Spot} (hopened : u.opened? = some staged)
    (hown : Own v user name staged spot) (hopened' : u'.opened? = some staged)
    (hkept : SpotsKept root (· = spot) d' d'')
    (hclean : ∀ file, u'.handle? = some file → file.failure = none)
    (hcause : ∀ staged cause, u'.stage = .discarding staged cause →
      ∃ fault, cause = .transport fault) : Progress v root user name payload d u' d'' := by
  obtain ⟨hkept', -, hvacant, -, -⟩ := h.of_opened hopened hown
  exact .underway staged spot hopened' hown (hkept'.trans hkept) hvacant hclean hcause

/-- The upload has opened its file. -/
theorem Progress.open_file (h : Progress v root user name payload d u d')
    (hstage : u.stage = .opening) {d'' : Disk} {staged : Option Path} {spot : Spot} {file : Handle}
    (hown : Own v user name staged spot) (hclean : file.failure = none)
    (hkept : SpotsKept root (· = spot) d' d'')
    (hvacant : v.options.atomic = true → d'.node? (spot.under root) = none) :
    Progress v root user name payload d { u with stage := .copying file staged } d'' := by
  have hdisk := h.of_ready (.inr hstage)
  subst hdisk
  refine .underway staged spot rfl hown hkept hvacant ?_ ?_
  · intro file' hfile
    cases hfile
    exact hclean
  · intro _ _ heq
    cases heq

theorem Quiet.progress (hbase : EmptyBase v d₀ root) (htree : Orderly v root d₀ d')
    (hname : accepts name) (hu : Placed v user name u)
    (haccounts : u.Accounts payload missing tail barrier)
    (hholding : Holding v root user name payload u d')
    (h : Progress v root user name payload d u d') (hquiet : Quiet v none d' u u') :
    Progress v root user name payload d u' d' := by
  cases hquiet with
  | refused error hwhy =>
    rcases hwhy with ⟨-, hfault⟩ | ⟨hstage, hfault | hcall⟩
    · exact absurd rfl hfault
    · exact absurd rfl hfault
    · have hdisk := h.of_ready (.inr hstage)
      subst hdisk
      have hkept := spotsKept_withFolder d root user
      split at hcall
      next hatomic =>
        obtain ⟨e, herror⟩ := hcall
        obtain ⟨number, hne⟩ := exists_staged_of_createNew hbase htree herror
        rw [hkept.node _ (by simp)] at hne
        exact .ended _ (settled?_settle _ _)
          (.refused _ _ hatomic (.inr ⟨number, hne⟩) (SpotsKept.refl root _ _))
      next hatomic =>
        -- the directory is there, so the file can be opened
        obtain ⟨e, herror⟩ := hcall
        obtain ⟨node, hfolder⟩ := exists_withFolder d root user
        rw [hu.target_eq, htree.create_file hbase user hname, hfolder] at herror
        rcases htree.file_cases user name with hnone | ⟨id, hnode, -⟩
        · rw [hnone] at herror
          cases herror
        · rw [hnode] at herror
          cases herror
  | waited turn stage hstage hstage' => exact .ready hstage' (h.of_ready (.inl hstage))
  | delayed _ _ _ _ _ _ hfault => exact absurd rfl hfault
  | copied file staged hstage hremaining =>
    have hopened : u.opened? = some staged := by rw [Upload.opened?, hstage]
    obtain ⟨spot, hown⟩ := hu.opened staged hopened
    obtain ⟨-, -, -, hclean, -⟩ := h.of_opened hopened hown
    refine h.go_on hopened hown rfl (SpotsKept.refl root _ d') (fun file' hfile => ?_)
      (fun _ _ heq => by cases heq)
    cases hfile
    exact hclean file (by rw [Upload.handle?, hstage])
  | flushed file staged hstage hclean =>
    have hopened : u.opened? = some staged := by rw [Upload.opened?, hstage]
    obtain ⟨spot, hown⟩ := hu.opened staged hopened
    refine h.go_on hopened hown rfl (SpotsKept.refl root _ d') (fun file' hfile => ?_)
      (fun _ _ heq => by cases heq)
    cases hfile
    exact hclean
  | synced file staged hstage =>
    have hopened : u.opened? = some (some staged) := by rw [Upload.opened?, hstage]
    obtain ⟨spot, hown⟩ := hu.opened _ hopened
    exact h.go_on hopened hown rfl (SpotsKept.refl root _ d') (fun _ hfile => by cases hfile)
      (fun _ _ heq => by cases heq)
  | completed file hstage =>
    have hopened : u.opened? = some none := by rw [Upload.opened?, hstage]
    obtain ⟨spot, id, hown, hnode, hkeeps⟩ := hholding.exists_file hu hopened
    obtain ⟨hkept, -, -, -, -⟩ := h.of_opened hopened hown
    have hintact : u.Intact := by
      rw [Upload.Intact, hstage]
      trivial
    have hcontent := hkeeps.whole haccounts (by rw [Upload.hasRead, hstage]) hintact
    cases hown with
    | inPlace _ => exact .ended _ (settled?_settle _ _) (.stored _ hkept id hnode hcontent)
  | gaveUp staged cause body remaining hopened hwhy =>
    obtain ⟨spot, hown⟩ := hu.opened staged hopened
    obtain ⟨hkept, hfolder, hvacant, hclean, -⟩ := h.of_opened hopened hown
    have htransport : ∃ fault, cause = .transport fault := by
      rcases hwhy with hcause | hfault | ⟨file, hfile, hfailure⟩ | ⟨path, e, hstage, herror⟩
      · exact hcause
      · exact absurd rfl hfault
      · exact absurd (hclean file hfile) hfailure
      · -- the file aside and the directory are there, so it can be put in its place
        rw [Upload.opened?, hstage] at hopened
        cases hopened
        obtain ⟨id, hnode, -⟩ := hholding.file _ spot (by rw [Upload.opened?, hstage]) hown
        obtain ⟨node, hfolder⟩ := hfolder
        generalize hpath : some path = staged at hown
        cases hown with
        | inPlace => cases hpath
        | aside hatomic number hfits =>
          cases hpath
          rw [hu.target_eq, htree.rename_staged hbase number user hname, if_neg hfits,
            hnode] at herror
          simp [hfolder] at herror
    refine h.go_on hopened hown rfl (SpotsKept.refl root _ d') (fun _ hfile => by cases hfile) ?_
    intro _ _ heq
    cases heq
    exact htransport
  | left result turn stage hstage hstage' =>
    have hsettled : u.settled? = some result := by rw [Upload.settled?, hstage]
    refine .ended result ?_ (h.of_settled hsettled)
    rcases hstage' with rfl | rfl <;> rfl
  | finished result hstage => exact h

theorem Move.progress (hbase : EmptyBase v d₀ root) (htree : Orderly v root d₀ d')
    (hname : accepts name) (hu : Placed v user name u)
    (haccounts : u.Accounts payload missing tail barrier)
    (hholding : Holding v root user name payload u d')
    (h : Progress v root user name payload d u d') {d'' : Disk}
    (hmove : Move v root user name none d' u u' d'') :
    Progress v root user name payload d u' d'' := by
  cases hmove with
  | idle _ hquiet => exact hquiet.progress hbase htree hname hu haccounts hholding h
  | prepared turn stage hstage hstage' =>
    rw [h.of_preparing hstage]
    exact .ready hstage' rfl
  | madeAside number hstage hatomic hfits hnone =>
    exact h.open_file hstage (.aside hatomic number hfits) rfl (spotsKept_putNew htree _)
      fun _ => hnone
  | madeInPlace hstage hatomic hfolder hnone =>
    exact h.open_file hstage (.inPlace hatomic) rfl (spotsKept_putNew htree _) fun _ => hnone
  | emptied id hstage hatomic hnode =>
    refine h.open_file hstage (.inPlace hatomic) rfl (spotsKept_overwrite htree hnode _)
      fun hatomic' => ?_
    rw [hatomic] at hatomic'
    cases hatomic'
  | wrote file staged id bytes body hstage htarget hclean hread =>
    have hopened : u.opened? = some staged := by rw [Upload.opened?, hstage]
    obtain ⟨spot, id', hown, hnode, hkeeps⟩ := hholding.exists_file hu hopened
    have heq := hkeeps.target file (by rw [Upload.handle?, hstage])
    rw [htarget] at heq
    cases heq
    refine h.go_on hopened hown rfl (spotsKept_overwrite htree hnode _) (fun file' hfile => ?_)
      (fun _ _ heq => by cases heq)
    cases hfile
    exact hclean
  | published number id hstage hnode hfolder =>
    have hopened : u.opened? = some (some (v.pathOf (.staged number))) := by
      rw [Upload.opened?, hstage]
    obtain ⟨spot, id', hown, hnode', hkeeps⟩ := hholding.exists_file hu hopened
    obtain ⟨hkept, -, hvacant, -, -⟩ := h.of_opened hopened hown
    have hintact : u.Intact := by
      rw [Upload.Intact, hstage]
      trivial
    have hcontent := hkeeps.whole haccounts (by rw [Upload.hasRead, hstage]) hintact
    generalize hpath : some (v.pathOf (.staged number)) = staged at hown
    cases hown with
    | inPlace => cases hpath
    | aside hatomic number' hfits =>
      cases pathOf_injective (Option.some.inj hpath)
      rw [hnode] at hnode'
      cases hnode'
      -- the spot aside is vacant again, so all that has changed is the user's file
      have hmoved := spotsKept_move d' root (.staged number) (.file user name) id
      have hall : SpotsKept root (fun s => s = .file user name ∨ s = .staged number)
          (withFolder d root user) (move d' root (.staged number) (.file user name) id) :=
        (hkept.mono fun _ heq => .inr heq).trans hmoved
      have hgone : (move d' root (.staged number) (.file user name) id).node?
          (Spot.under (.staged number) root) = none := by
        rw [node?_move, if_neg (by simp), if_pos rfl]
      refine .ended _ (settled?_settle _ _)
        (.stored _ (hall.of_vacant (hvacant hatomic) hgone) id ?_ hcontent)
      rw [node?_move, if_pos rfl]
  | discarded staged cause spot hstage hown =>
    have hopened : u.opened? = some staged := by rw [Upload.opened?, hstage]
    obtain ⟨id, hnode, -⟩ := hholding.file _ spot hopened hown
    obtain ⟨hkept, -, hvacant, -, hcause⟩ := h.of_opened hopened hown
    obtain ⟨fault, rfl⟩ := hcause staged cause hstage
    have hdisk : clear d' root spot = take d' root spot := by
      rw [clear, hnode]
      rfl
    have hgone : (take d' root spot).node? (spot.under root) = none := by
      rw [node?_take, if_pos rfl]
    have hall : SpotsKept root (· = spot) (withFolder d root user) (take d' root spot) :=
      hkept.trans (spotsKept_take d' root spot)
    rw [hdisk]
    -- the file aside has left no trace; the file in place has gone with what it replaced
    cases hown with
    | aside hatomic number hfits =>
      exact .ended _ (settled?_settle _ _) (.refused _ _ hatomic (.inl ⟨fault, rfl⟩)
        ((hall.mono fun _ heq => .inr heq).of_vacant (hvacant hatomic) hgone))
    | inPlace hatomic =>
      exact .ended _ (settled?_settle _ _) (.lost fault _ hatomic hall hgone)

/-! ## 3. Whole stores -/

variable {s : State} {length : UInt32} {body : Source}

/-- A store under a name that is accepted ends in one of three ways. -/
theorem store_ends (user : UInt32) (hbase : EmptyBase v d₀ root) (h : Orderly v root d₀ s.disk)
    (hname : accepts name) (hlength : payload.length = length.toNat)
    (hfront : body.front ++ missing = payload ++ tail) :
    Orderly v root d₀ (v.store s user name length body).state.disk ∧
      Ends v root user name payload s.disk (v.store s user name length body).result
        (v.store s user name length body).state.disk := by
  -- the run keeps the tree orderly and the upload's account of it true
  let motive (u : Upload) (t : State) : Prop :=
    Orderly v root d₀ t.disk ∧ Placed v user name u ∧
      u.Accounts payload missing tail body.barrier ∧ Holding v root user name payload u t.disk ∧
      Progress v root user name payload s.disk u t.disk
  have hstart : motive (Upload.start v user name length body) s := by
    refine ⟨h, placed_start v user hname length body,
      Upload.accounts_start v user name hlength hfront,
      holding_start v root user hlength body s.disk, .untouched ?_ rfl⟩
    rw [Upload.start, resolve_of_accepts v user hname]
  have hrun := Upload.runFor_induction (motive := motive) v
    (Upload.start v user name length body).stepsLeft (fun _ => none)
    (fun _ u t _ hmotive => by
      obtain ⟨htree, hplaced, haccounts, hholding, hprogress⟩ := hmotive
      have hmove := move_step hbase htree hname hplaced none
      exact ⟨hmove.orderly hbase htree hname, hmove.placed hplaced,
        Upload.accounts_step v none t haccounts, hmove.holding hholding htree hplaced haccounts,
        hmove.progress hbase htree hname hplaced haccounts hholding hprogress⟩) hstart
  obtain ⟨result, hend⟩ := Upload.run_finished v (fun _ => none) s
    (Upload.steady_start v user name length body)
  obtain ⟨htree, -, -, -, hprogress⟩ := hrun
  have hresult : (v.store s user name length body).result = result := by
    simp [store, storeWith, Upload.result?, hend]
  rw [hresult]
  have hsettled : ((Upload.start v user name length body).run v (fun _ => none) s).1.settled? =
      some result := by
    rw [Upload.settled?, hend]
  exact ⟨htree, hprogress.of_settled hsettled⟩

theorem storeWith_of_resolve {e : VaultError} (hresolve : v.resolve user name = .error e)
    (faults : Nat → Option Errno) (s : State) (length : UInt32) (body : Source) :
    v.storeWith faults s user name length body = ⟨.error (.vault e length.toNat), body, s⟩ := by
  have hstart : Upload.start v user name length body =
      { user, target := v.userDirectory user, body, remaining := length.toNat
        stage := .finished (.error (.vault e length.toNat)) } := by
    rw [Upload.start, hresolve]
  have hrun : (Upload.start v user name length body).run v faults s =
      (Upload.start v user name length body, s) :=
    Upload.runFor_of_finished v _ faults s (by rw [hstart])
  simp only [storeWith, hrun]
  rw [hstart]
  rfl

theorem store_of_resolve {e : VaultError} (hresolve : v.resolve user name = .error e)
    (s : State) (length : UInt32) (body : Source) :
    v.store s user name length body = ⟨.error (.vault e length.toNat), body, s⟩ :=
  storeWith_of_resolve hresolve _ s length body

/-- A store under a name that is not accepted does nothing at all. -/
theorem store_of_not_accepts (v : Vault) (s : State) (user : UInt32) (hname : ¬accepts name)
    (length : UInt32) (body : Source) :
    (∃ fault, (v.store s user name length body).result =
        .error (.vault (.invalidName fault) length.toNat)) ∧
      (v.store s user name length body).state = s ∧
      (v.store s user name length body).body = body := by
  obtain ⟨fault, hresolve⟩ := resolve_of_not_accepts v user hname
  rw [store_of_resolve hresolve]
  exact ⟨⟨fault, rfl⟩, rfl, rfl⟩

/-- A payload that comes in whole is stored, where no file is on its way in. -/
theorem store_whole (user : UInt32) (hbase : EmptyBase v d₀ root) (h : Orderly v root d₀ s.disk)
    (hname : accepts name) (hlength : payload.length = length.toNat)
    (hfront : body.front = payload ++ tail)
    (hclear : ∀ number, s.disk.node? (Spot.under (.staged number) root) = none) :
    (v.store s user name length body).result = .ok () ∧
      SpotsKept root (· = .file user name) (withFolder s.disk root user)
        (v.store s user name length body).state.disk ∧
      ∃ id, (v.store s user name length body).state.disk.node?
          (Spot.under (.file user name) root) = some (.file id) ∧
        ((v.store s user name length body).state.disk.contentOf id).bytes = payload := by
  have hfront' : body.front ++ [] = payload ++ tail := by rw [List.append_nil, hfront]
  have hends := (store_ends user hbase h hname hlength hfront').2
  have hunread := storeWith_unread v (fun _ => none) s user name hlength hfront'
  rw [← store] at hunread
  generalize v.store s user name length body = stored at hends hunread ⊢
  obtain ⟨result, rest, state⟩ := stored
  dsimp only at hends hunread ⊢
  generalize state.disk = d' at hends ⊢
  cases hends with
  | stored _ hkept id hnode hcontent => exact ⟨rfl, hkept, id, hnode, hcontent⟩
  -- a payload that is all there is not cut off, and nobody else is on the way in
  | refused error _ hatomic hwhy hkept =>
    rcases hwhy with ⟨fault, rfl⟩ | ⟨number, hne⟩
    · exact absurd rfl hunread
    · exact absurd (hclear number) hne
  | lost fault => exact absurd rfl hunread

end UserVault.Vault
