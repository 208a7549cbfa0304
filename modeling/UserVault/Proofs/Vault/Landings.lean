import UserVault.Proofs.Vault.Unhindered

/-!
# Where whole payloads land

A store that finds all of its payload either puts it under the user's name or leaves the tree as it
was, but for the user's directory.  Where permissions forbid nothing, which of the two it is does
not depend on how the vault writes: in place it fails when it opens the file, aside when it moves
the file, but it fails for the same names (`admits`).
-/

namespace UserVault.Vault

open Disk Link

variable {v : Vault} {root : Place} {d d' : Disk} {user : UInt32} {name payload : Bytes}
  {came : Bool}

/-- The payload has come to stand under the user's name, or nothing has changed. -/
structure Lands (v : Vault) (root : Place) (user : UInt32) (name payload : Bytes) (came : Bool)
    (d d' : Disk) : Prop where
  unhindered : Unhindered v root d'
  bound : d'.bound = d.bound
  umask : d'.umask = d.umask
  entry : ∀ q, d'.entryAt? q =
    if came ∧ q = Spot.under (.file user name) root then some (.file payload) else d.entryAt? q

theorem lands_refl (h : Unhindered v root d) : Lands v root user name payload false d d :=
  ⟨h, rfl, rfl, fun q => by simp⟩

/-- What a store comes to from the opening of its file on, once the user has a directory. -/
inductive Opens (v : Vault) (root : Place) (d : Disk) (user : UInt32) (name payload : Bytes)
    (unread : Nat) : Prop
  | refused (e : StoreError)
    (hopen : v.openStore d (v.pathOf (.file user name)) unread = (.error e, d))
    (hadmits : admits v root d user name = false)
  | opened (id : FileId) (staged : Option Path) (d' : Disk)
    (hopen : v.openStore d (v.pathOf (.file user name)) unread =
      (.ok ({ target := .file id }, staged), d'))
    (hempty : d'.contentOf id = .empty) (hrecord : d'.record? id ≠ none)
    (hend : (endStore (d'.fill id payload) (v.pathOf (.file user name)) staged).1.isOk =
      admits v root d user name)
    (hlands : Lands v root user name payload (admits v root d user name) d
      (endStore (d'.fill id payload) (v.pathOf (.file user name)) staged).2)

/-! ## 1. In place -/

/-- A file that has been opened where it is to stand holds the payload as soon as that is
written. -/
theorem Begun.opens {file : Handle} {id : FileId} {unread : Nat}
    (h : Begun v root (v.pathOf (.file user name)) file none (.file user name) id d')
    (hunhindered : Unhindered v root d') (hbound : d'.bound = d.bound)
    (humask : d'.umask = d.umask)
    (hentry : ∀ q, q ≠ Spot.under (.file user name) root → d'.entryAt? q = d.entryAt? q)
    (hopen : v.openStore d (v.pathOf (.file user name)) unread =
      (.ok ({ target := .file id }, none), d'))
    (hadmits : admits v root d user name = true) : Opens v root d user name payload unread := by
  refine .opened id none d' hopen h.empty h.known.record hadmits.symm ?_
  rw [hadmits]
  refine ⟨hunhindered.fill id payload, ?_, ?_, fun q => ?_⟩
  · rw [endStore, bound_fill, hbound]
  · rw [endStore, umask_fill, humask]
  · rw [endStore, h.entryAt?_fill]
    by_cases hq : q = Spot.under (.file user name) root
    · simp [hq]
    · simp [hq, hentry q hq]

namespace Unhindered

theorem opens_inPlace (h : Unhindered v root d) (hatomic : v.options.atomic = false)
    (hname : accepts name) (payload : Bytes) (unread : Nat) :
    Opens v root d user name payload unread := by
  have hplace := isBelow_under (.file user name) root
  have hne := Spot.under_ne_nil (.file user name) root
  have hopen := openStore_inPlace hatomic d (v.pathOf (.file user name)) unread
  rw [h.ground.create_spot (.file user name) hname] at hopen
  cases hreach : reach v root d (.file user name) with
  | error e =>
    rw [hreach] at hopen
    exact .refused _ hopen (by rw [admits, hreach])
  | ok _ =>
    rw [hreach] at hopen
    cases hnode : d.node? (Spot.under (.file user name) root) with
    | none =>
      rw [hnode] at hopen
      have hadmits : admits v root d user name =
          d.mayChange (Spot.under (.file user name) root) := by
        rw [admits, hreach, entryAt?_eq_none.mpr hnode]
      by_cases hmay : d.mayChange (Spot.under (.file user name) root)
      · -- a new file is made at the place
        obtain ⟨mode, hparent⟩ := directory_of_reach hreach
        have hcreate : d.createAt (Spot.under (.file user name) root) =
            .ok ({ target := .file d.nextFile },
              (d.addFile (Spot.under (.file user name) root)).2) := if_pos hmay
        rw [hcreate] at hopen
        have hbegun : Begun v root (v.pathOf (.file user name)) _ none _ _ _ :=
          h.ground.begun_createAt (.file user name) hname hreach hnode hcreate rfl
        refine hbegun.opens (h.addFile hplace hnode hparent hmay) rfl rfl (fun q hq => ?_) hopen
          (hadmits.trans hmay)
        rw [entryAt?_addFile hne h.ground.unused, if_neg hq]
      · have hcreate : d.createAt (Spot.under (.file user name) root) = .error .accessDenied :=
          if_neg hmay
        rw [hcreate] at hopen
        exact .refused _ hopen (by rw [hadmits, Bool.eq_false_iff]; exact hmay)
    | some node =>
      rw [hnode] at hopen
      rcases h.ground.kinds _ _ hplace hnode with ⟨mode, rfl⟩ | ⟨id, rfl⟩
      · exact .refused _ hopen (by rw [admits, hreach, entryAt?_eq_directory.mpr hnode])
      · -- the file at the place is emptied
        have hid := h.usable _ id hplace hnode
        have huse := hid.mayUse .write (by decide)
        dsimp only at hopen
        rw [if_pos huse] at hopen
        have hbegun : Begun v root (v.pathOf (.file user name)) _ none _ _ _ :=
          h.ground.begun_overwrite hatomic (.file user name) hname hreach hnode huse rfl
        refine hbegun.opens (h.overwrite id .empty) (bound_overwrite id _) (umask_overwrite id _)
          (fun q hq => ?_) hopen (by
            rw [admits, hreach, entryAt?_of_file hnode, h.mayChange hplace hnode])
        rw [entryAt?_overwrite hid.record?_ne_none hnode fun q' =>
          h.ground.single _ q' id hplace hnode, if_neg hq]

end Unhindered

/-! ## 2. Aside -/

namespace Unhindered

/-- A file aside that holds the payload comes to stand under the user's name, or is gone. -/
theorem publish {filled : Disk} (h : Unhindered v root filled) (hbound : filled.bound = d.bound)
    (humask : filled.umask = d.umask) {n : Nat}
    (hentry : ∀ q, q ≠ Spot.under (.staged n) root → filled.entryAt? q = d.entryAt? q)
    (hnone : d.node? (Spot.under (.staged n) root) = none)
    (hreach : reach v root filled (.staged n) = .ok ()) {id : FileId}
    (hnode : filled.node? (Spot.under (.staged n) root) = some (.file id))
    (hcontent : (filled.contentOf id).bytes = payload) (hname : accepts name) :
    let ended := endStore filled (v.pathOf (.file user name)) (some (v.pathOf (.staged n)))
    ended.1.isOk = admits v root d user name ∧
      Lands v root user name payload (admits v root d user name) d ended.2 := by
  have hplace := isBelow_under (.staged n) root
  have hne := Spot.under_ne_nil (.staged n) root
  have hvacant := entryAt?_eq_none.mpr hnone
  have hadmits : admits v root filled user name = admits v root d user name :=
    admits_congr hbound hentry user name
  have hmay := h.mayChange hplace hnode
  have hrename := h.ground.rename_eq (.staged n) trivial hreach hnode user hname
  rw [hmay, Bool.true_and, hadmits] at hrename
  cases hcame : admits v root d user name with
  | true =>
    rw [hcame, if_pos rfl] at hrename
    obtain ⟨hold, ⟨mode, hparent⟩, hmay'⟩ := directory_of_admits (hadmits.trans hcame)
    rw [endStore, hrename]
    refine ⟨rfl, h.move hnode hold hparent hmay', hbound, humask, fun q => ?_⟩
    show (Vault.move filled root (.staged n) (.file user name) id).entryAt? q = _
    rw [Vault.move, entryAt?_put (Spot.under_ne_nil _ _)]
    by_cases hq : q = Spot.under (.file user name) root
    · rw [if_pos hq, if_pos ⟨rfl, hq⟩, ← hcontent]
      rfl
    · rw [if_neg hq, if_neg fun hand => hq hand.2, entryAt?_drop hne]
      by_cases hq' : q = Spot.under (.staged n) root
      · rw [if_pos hq', hq', hvacant]
      · rw [if_neg hq', hentry q hq']
  | false =>
    rw [hcame, if_neg Bool.false_ne_true] at hrename
    obtain ⟨e, hrename⟩ := hrename
    rw [endStore, hrename]
    dsimp only
    rw [h.ground.withdraw_spot (.staged n) trivial hreach hnode, if_pos hmay]
    refine ⟨rfl, h.drop hplace hnode, hbound, humask, fun q => ?_⟩
    rw [if_neg fun hand => Bool.false_ne_true hand.1, entryAt?_drop hne]
    by_cases hq : q = Spot.under (.staged n) root
    · rw [if_pos hq, hq, hvacant]
    · rw [if_neg hq, hentry q hq]

theorem opens_aside (h : Unhindered v root d) (hatomic : v.options.atomic = true)
    (hname : accepts name)
    (hsearch : ∃ mode, d.node? root = some (.directory mode) ∧ d.allows mode .search)
    (hroom : Roomy v root d) (payload : Bytes) (unread : Nat) :
    Opens v root d user name payload unread := by
  obtain ⟨n, hpath, hreach, hnone, hmay⟩ := h.createNew_stagedPath hsearch hroom
  obtain ⟨mode, hparent⟩ := directory_of_reach hreach
  have hplace := isBelow_under (.staged n) root
  have hne := Spot.under_ne_nil (.staged n) root
  -- a file is made aside
  have hcreate : d.createAt (Spot.under (.staged n) root) =
      .ok ({ target := .file d.nextFile }, (d.addFile (Spot.under (.staged n) root)).2) :=
    if_pos hmay
  have hcreateNew : d.createNew (v.pathOf (.staged n)) =
      d.createAt (Spot.under (.staged n) root) := by
    rw [h.ground.createNew_spot (.staged n) trivial, hreach, hnone]
  have hopen : v.openStore d (v.pathOf (.file user name)) unread =
      (.ok ({ target := .file d.nextFile }, some (v.pathOf (.staged n))),
        (d.addFile (Spot.under (.staged n) root)).2) := by
    rw [openStore, if_pos hatomic, hpath]
    dsimp only
    rw [hcreateNew, hcreate]
  have hbegun : Begun v root (v.pathOf (.file user name)) _ (some (v.pathOf (.staged n))) _ _ _ :=
    h.ground.begun_createAt (.staged n) trivial hreach hnone hcreate rfl
  have hcontent := contentOf_fill hbegun.empty hbegun.known.record payload
  -- nothing else has changed once it is filled
  have hentry (q : Place) (hq : q ≠ Spot.under (.staged n) root) :
      (((d.addFile (Spot.under (.staged n) root)).2).fill d.nextFile payload).entryAt? q =
        d.entryAt? q := by
    rw [hbegun.entryAt?_fill, if_neg hq, entryAt?_addFile hne h.ground.unused, if_neg hq]
  have hfilled := (h.addFile hplace hnone hparent hmay).fill d.nextFile payload
  obtain ⟨hend, hlands⟩ := publish (d := d) hfilled (bound_fill _ _) (umask_fill _ _) hentry hnone
    (hbegun.reach_fill payload) (hbegun.node_fill payload)
    (by rw [hcontent, Content.bytes_ofBytes]) hname
  exact .opened _ _ _ hopen hbegun.empty hbegun.known.record hend hlands

end Unhindered

/-! ## 3. Whole stores -/

/-- What is left once the directory of a user has been made, or could not be made. -/
structure Furnishes (v : Vault) (root : Place) (made : Bool) (d d' : Disk) : Prop where
  unhindered : Unhindered v root d'
  bound : d'.bound = d.bound
  umask : d'.umask = d.umask
  aside : SameAside root d d'
  search : made → ∃ mode, d'.node? root = some (.directory mode) ∧ d'.allows mode .search

theorem aside_ne_folder (name : Name) (user : UInt32) :
    Spot.under .staging root ++ [name] ≠ Spot.under (.folder user) root := by
  intro heq
  have hlength := congrArg List.length heq
  simp [Spot.under, Spot.steps] at hlength

theorem aside_ne_file (name : Name) (user : UInt32) (name' : Bytes) :
    Spot.under .staging root ++ [name] ≠ Spot.under (.file user name') root := by
  intro heq
  rw [Spot.under, Spot.under, List.append_assoc] at heq
  have hsteps := List.append_cancel_left heq
  exact Spot.numeral_ne_stagingName _ (List.cons.inj hsteps).1.symm

theorem Lands.aside (h : Lands v root user name payload came d d') : SameAside root d d' := by
  intro name'
  rw [h.entry, if_neg fun hand => aside_ne_file name' user name hand.2]

theorem Unhindered.makeDirectories (h : Unhindered v root d) (user : UInt32) :
    Furnishes v root (d.makeDirectories (v.userDirectory user)).1.isOk d
      (d.makeDirectories (v.userDirectory user)).2 := by
  have hplace := isBelow_under (.folder user) root
  have hne := Spot.under_ne_nil (.folder user) root
  have hstay (hsearch : reach v root d (.folder user) = .ok ()) :
      ∃ mode, d.node? root = some (.directory mode) ∧ d.allows mode .search := by
    unfold reach at hsearch
    split at hsearch
    · cases hsearch
    · obtain ⟨mode, hroot, hmode⟩ := directory_of_approach (Spot.steps_ne_nil _) hsearch
      rw [Spot.steps, List.dropLast_concat] at hroot
      exact ⟨mode, hroot, hmode⟩
  have hsame (made : Bool) (hmade : made → reach v root d (.folder user) = .ok ()) :
      Furnishes v root made d d :=
    ⟨h, rfl, rfl, fun _ => rfl, fun hm => hstay (hmade hm)⟩
  rw [h.ground.makeDirectories_eq]
  split
  · exact hsame _ fun hmade => by cases hmade
  next hreach hentry =>
    have hnone := entryAt?_eq_none.mp hentry
    obtain ⟨mode, hparent⟩ := directory_of_reach hreach
    split
    · refine ⟨h.addDirectory hplace hnone hparent, rfl, rfl, fun name => ?_, fun _ => ?_⟩
      · rw [entryAt?_addDirectory hne, if_neg (aside_ne_folder name user)]
      · obtain ⟨mode, hroot, hmode⟩ := hstay hreach
        refine ⟨mode, ?_, hmode⟩
        rw [node?_addDirectory hne, if_neg, hroot]
        intro heq
        rw [← heq, hroot] at hnone
        cases hnone
    · exact hsame _ fun hmade => by cases hmade
  next hreach _ => exact hsame _ fun _ => hreach
  · exact hsame _ fun hmade => by cases hmade

theorem Roomy.congr (h : Roomy v root d) (haside : SameAside root d d') : Roomy v root d' := by
  obtain ⟨n, hshort, hfree⟩ := h
  refine ⟨n, hshort, ?_⟩
  have hplace : Spot.under (.staged n) root = Spot.under .staging root ++ [stagedName n] := by
    simp [Spot.under, Spot.steps]
  rw [Taken, ne_eq, not_not] at hfree ⊢
  rw [← entryAt?_eq_none] at hfree ⊢
  rw [hplace] at hfree ⊢
  rw [haside, hfree]

/-- A store whose payload is all there succeeds just if the user has or gets a directory, and a
file may come to stand in it under the name. -/
theorem Unhindered.store {s : State} (h : Unhindered v root s.disk) (hroom : Roomy v root s.disk)
    (user : UInt32) (hname : accepts name) {length : UInt32}
    (hlength : payload.length = length.toNat) {body : Source} {tail : Bytes}
    (hfront : body.front = payload ++ tail) :
    let made := s.disk.makeDirectories (v.userDirectory user)
    let came := made.1.isOk && admits v root made.2 user name
    (v.store s user name length body).result.isOk = came ∧
      Lands v root user name payload came made.2 (v.store s user name length body).state.disk := by
  have hfurnishes := h.makeDirectories user
  cases hmade : s.disk.makeDirectories (v.userDirectory user) with
  | mk made d =>
    rw [hmade] at hfurnishes
    cases made with
    | error e =>
      have hbegin : v.beginStore s.disk user (v.pathOf (.file user name)) length.toNat =
          (.error (Upload.failure e length.toNat), d) := by rw [beginStore, hmade]
      obtain ⟨hstored, hdisk⟩ := store_of_error (s := s) hname body hbegin
      rw [hstored, hdisk]
      exact ⟨rfl, lands_refl hfurnishes.unhindered⟩
    | ok _ =>
      have hbegin : v.beginStore s.disk user (v.pathOf (.file user name)) length.toNat =
          v.openStore d (v.pathOf (.file user name)) length.toNat := by rw [beginStore, hmade]
      have hopens : Opens v root d user name payload length.toNat := by
        cases hatomic : v.options.atomic with
        | false => exact hfurnishes.unhindered.opens_inPlace hatomic hname payload _
        | true =>
          exact hfurnishes.unhindered.opens_aside hatomic hname (hfurnishes.search rfl)
            (hroom.congr hfurnishes.aside) payload _
      show (v.store s user name length body).result.isOk = admits v root d user name ∧
        Lands v root user name payload (admits v root d user name) d
          (v.store s user name length body).state.disk
      cases hopens with
      | refused e hopen hadmits =>
        obtain ⟨hstored, hdisk⟩ := store_of_error (s := s) hname body (hbegin.trans hopen)
        rw [hstored, hdisk, hadmits]
        exact ⟨rfl, lands_refl hfurnishes.unhindered⟩
      | opened id staged d' hopen hempty hrecord hend hlands =>
        obtain ⟨hstored, hdisk⟩ := store_of_front (s := s) hname hempty hrecord
          (hbegin.trans hopen) hlength hfront
        rw [hstored, hdisk]
        exact ⟨hend, hlands⟩

end UserVault.Vault
