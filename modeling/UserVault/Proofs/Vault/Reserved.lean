import UserVault.Proofs.Vault.Twins

/-!
# Reserved files

Some of the stores of a crowd are watched, and some spots.  The files that matter there are
reserved: nobody else has one of them open, and none of them stands anywhere else.  So whatever
others do, they do it to other files.
-/

namespace UserVault.Vault

open Disk

variable {v : Vault} {root : Place} {d₀ d d' : Disk} {W P : Spot → Prop} {X : FileId → Prop}
  {watched : Nat → Prop} {dom dom' : FileId → Prop} {stores stores' : Nat → Option Storing}
  {i : Nat} {p : Storing} {u : Upload}

/-- The files of which `dom` holds are reserved for the spots of which `W` holds and the stores of
which `watched` holds. -/
structure Reserved (v : Vault) (root : Place) (W : Spot → Prop) (watched : Nat → Prop)
    (dom : FileId → Prop) (d : Disk) (stores : Nat → Option Storing) : Prop where
  lt : ∀ id, dom id → id < d.nextFile
  spots : ∀ (spot : Spot) id, dom id → d.node? (spot.under root) = some (.file id) →
    W spot ∨ ∃ n i p, spot = .staged n ∧ watched i ∧ stores i = some p ∧
      p.upload.opened? = some (some (v.pathOf (.staged n)))
  handles : ∀ i p file id, ¬watched i → stores i = some p → p.upload.handle? = some file →
    file.target = .file id → ¬dom id

/-- What matters is where the watched stores are, and what the others have open. -/
theorem Reserved.mono (h : Reserved v root W watched dom d stores) {watched' : Nat → Prop}
    (hstays : ∀ i p path, watched i → stores i = some p → p.upload.opened? = some (some path) →
      watched' i ∧ stores' i = some p)
    (hold : ∀ i p file, ¬watched' i → stores' i = some p → p.upload.handle? = some file →
      ¬watched i ∧ stores i = some p) : Reserved v root W watched' dom d stores' where
  lt := h.lt
  spots spot id hid hnode := by
    refine (h.spots spot id hid hnode).imp_right fun ⟨n, i, p, hspot, hi, hp, hopened⟩ => ?_
    exact ⟨n, i, p, hspot, (hstays i p _ hi hp hopened).1, (hstays i p _ hi hp hopened).2, hopened⟩
  handles i p file id hi hp hfile htarget := by
    obtain ⟨hi', hp'⟩ := hold i p file hi hp hfile
    exact h.handles i p file id hi' hp' hfile htarget

/-- Fewer files may be reserved. -/
theorem Reserved.anti (h : Reserved v root W watched dom d stores)
    (hdom : ∀ id, dom' id → dom id) : Reserved v root W watched dom' d stores where
  lt id hid := h.lt id (hdom id hid)
  spots spot id hid := h.spots spot id (hdom id hid)
  handles i p file id hi hp hfile htarget hid :=
    h.handles i p file id hi hp hfile htarget (hdom id hid)

/-- A store that is not watched and does not touch the spots in question writes to other files. -/
theorem Reserved.not_writes (h : Reserved v root W watched dom d stores) (hi : ¬watched i)
    (hp : stores i = some p)
    (hspots : ∀ spot, W spot → ¬p.upload.Touches v root p.order.user p.order.name d spot)
    {id : FileId} (hid : dom id) : ¬p.upload.Writes root p.order.user p.order.name d id := by
  rintro (⟨file, hfile, htarget⟩ | ⟨hstage, hnode⟩)
  · exact h.handles i p file id hi hp hfile htarget hid
  · rcases h.spots _ id hid hnode with hW | ⟨n, j, q, hspot, -⟩
    · exact hspots _ hW ⟨⟨rfl, rfl⟩, .inl hstage⟩
    · cases hspot

/-- A change at spots where no reserved file stands brings none anywhere. -/
theorem Reserved.spots_beside (h : Reserved v root W watched dom d stores)
    (hrecords : RecordsKept root P X d d')
    (hP : ∀ spot id, P spot → dom id → d.node? (spot.under root) ≠ some (.file id))
    {spot : Spot} {id : FileId} (hid : dom id)
    (hnode : d'.node? (spot.under root) = some (.file id)) :
    ¬P spot ∧ d.node? (spot.under root) = some (.file id) := by
  rcases hrecords.files spot id hnode with heq | ⟨spot', rfl | hspot', hold⟩
  · exact absurd (h.lt id hid) (heq ▸ Nat.lt_irrefl _)
  · exact ⟨fun hspot => hP spot' id hspot hid hold, hold⟩
  · exact absurd hold (hP spot' id hspot' hid)

/-- A step of a store that is not watched, away from the spots in question and from the files of
watched stores. -/
theorem Reserved.beside_store (h : Reserved v root W watched dom d stores) (hi : ¬watched i)
    (hp : stores i = some p) (hadvances : p.Advances v root d₀ d u d')
    (hspots : ∀ spot, W spot → ¬p.upload.Touches v root p.order.user p.order.name d spot)
    (hasides : ∀ j q n, watched j → stores j = some q →
      q.upload.opened? = some (some (v.pathOf (.staged n))) →
      ¬p.upload.Touches v root p.order.user p.order.name d (.staged n)) :
    Reserved v root W watched dom d'
      (Function.update stores i (some { p with upload := u })) where
  lt id hid := Nat.lt_of_lt_of_le (h.lt id hid) hadvances.recordsKept.nextFile
  spots spot id hid hnode := by
    obtain ⟨-, hold⟩ := h.spots_beside hadvances.recordsKept (fun spot id htouches hid hnode => by
      rcases h.spots spot id hid hnode with hW | ⟨n, j, q, rfl, hj, hq, hopened⟩
      · exact hspots spot hW htouches
      · exact hasides j q n hj hq hopened htouches) hid hnode
    refine (h.spots spot id hid hold).imp_right fun ⟨n, j, q, hspot, hj, hq, hopened⟩ => ?_
    have hne : j ≠ i := fun heq => hi (heq ▸ hj)
    exact ⟨n, j, q, hspot, hj, update_self_of_ne hne hq, hopened⟩
  handles j q file id hj hq hfile htarget hid := by
    rcases eq_some_update hq with ⟨rfl, rfl⟩ | ⟨-, hq⟩
    · rcases hadvances.handle file id hfile htarget with hwrites | heq
      · exact h.not_writes hi hp hspots hid hwrites
      · exact absurd (h.lt id hid) (heq ▸ Nat.lt_irrefl _)
    · exact h.handles j q file id hj hq hfile htarget hid

/-- A step of a watched store, which may get a new file. -/
theorem Reserved.own_store (h : Reserved v root W watched dom d stores) (hi : watched i)
    (hp : stores i = some p) (htree : Orderly v root d₀ d) (htree' : Orderly v root d₀ d')
    (hadvances : p.Advances v root d₀ d u d') (hfile : W (.file p.order.user p.order.name))
    (hdom : ∀ id, dom' id → dom id ∨ id = d.nextFile ∧ id < d'.nextFile)
    (hhandles : ∀ j q, stores j = some q → q.upload.Stands v root d₀ d q.order.user) :
    Reserved v root W watched dom' d'
      (Function.update stores i (some { p with upload := u })) where
  lt id hid := by
    rcases hdom id hid with hold | ⟨-, hlt⟩
    · exact Nat.lt_of_lt_of_le (h.lt id hold) hadvances.recordsKept.nextFile
    · exact hlt
  spots spot id hid hnode := by
    have hof_old (hold : d.node? (spot.under root) = some (.file id)) : dom id := by
      rcases hdom id hid with hid | ⟨rfl, -⟩
      · exact hid
      · exact absurd (htree.usable hold).lt (Nat.lt_irrefl _)
    -- an aside of this store is looked for where the step leaves it, any other one where it was
    have hother (hold : d.node? (spot.under root) = some (.file id))
        (hne : ∀ n, spot = .staged n → p.upload.opened? ≠ some (some (v.pathOf (.staged n)))) :
        W spot ∨ ∃ n j q, spot = .staged n ∧ watched j ∧
          Function.update stores i (some { p with upload := u }) j = some q ∧
          q.upload.opened? = some (some (v.pathOf (.staged n))) := by
      refine (h.spots spot id (hof_old hold) hold).imp_right
        fun ⟨n, j, q, hspot, hj, hq, hopened⟩ => ?_
      have hji : j ≠ i := by
        rintro rfl
        rw [hp] at hq
        cases hq
        exact hne n hspot hopened
      exact ⟨n, j, q, hspot, hj, update_self_of_ne hji hq, hopened⟩
    cases spot with
    | staging | folder =>
      obtain ⟨mode, heq, -⟩ := (htree'.fits hnode).2
      cases heq
    | file user name =>
      by_cases htouches : p.upload.Touches v root p.order.user p.order.name d (.file user name)
      · obtain ⟨⟨rfl, rfl⟩, -⟩ := htouches
        exact .inl hfile
      · rw [hadvances.recordsKept.node _ htouches] at hnode
        exact hother hnode (fun n heq => by cases heq)
    | staged n =>
      rcases hadvances.staged n _ hnode with hopened | ⟨hold, hne⟩
      · exact .inr ⟨n, i, _, rfl, hi, Function.update_self .., hopened⟩
      · refine hother hold fun n' heq => ?_
        cases heq
        exact hne
  handles j q file id hj hq hopen htarget hid := by
    rcases eq_some_update hq with ⟨rfl, -⟩ | ⟨-, hq⟩
    · exact hj hi
    · rcases hdom id hid with hid | ⟨rfl, -⟩
      · exact h.handles j q file id hj hq hopen htarget hid
      · obtain ⟨id', htarget', -, hlt, -⟩ := (hhandles j q hq).handle file hopen
        rw [htarget] at htarget'
        cases htarget'
        exact Nat.lt_irrefl _ hlt

/-- A step of somebody who takes users' files away, either among the spots in question or away from
them. -/
theorem Reserved.beside (h : Reserved v root W watched dom d stores)
    (hrecords : RecordsKept root P (fun _ => False) d d')
    (hfile : ∀ spot, P spot → ∃ user name, spot = .file user name)
    (hP : (∀ spot, P spot → W spot) ∨ ∀ spot, P spot → ¬W spot) :
    Reserved v root W watched dom d' stores where
  lt id hid := Nat.lt_of_lt_of_le (h.lt id hid) hrecords.nextFile
  spots spot id hid hnode := by
    by_cases hspot : P spot
    · rcases hP with hW | hW
      · exact .inl (hW spot hspot)
      · refine absurd hspot
          (h.spots_beside hrecords (fun spot id hspot hid hold => ?_) hid hnode).1
        rcases h.spots spot id hid hold with hW' | ⟨n, -, -, rfl, -⟩
        · exact hW spot hspot hW'
        · obtain ⟨user, name, heq⟩ := hfile _ hspot
          cases heq
    · rw [hrecords.node spot hspot] at hnode
      exact h.spots spot id hid hnode
  handles := h.handles

end UserVault.Vault
