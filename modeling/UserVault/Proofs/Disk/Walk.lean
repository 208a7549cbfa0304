import UserVault.Disk.Walk
import UserVault.Proofs.Disk.Path

/-!
# Walks

A walk that ends at a directory can be taken further: what comes after it depends on that directory
alone, not on the links that led there.  A walk that ends at a directory ends there as well when
more stands on the disk or when files have gone.
-/

namespace UserVault.Disk

variable {d : Disk} {purpose : Purpose} {follow : Place → List Name → Except Errno Found}

/-! ## 1. Single steps -/

-- The steps that only look at where they are taken: they lead from `start` to `place`.
inductive Passes (d : Disk) (start : Place) (step : Name) : Place → Prop
  | closes (mode : Nat) (hstart : d.node? start = some (.directory mode)) (hstep : step = closing) :
    Passes d start step start
  | stays (mode : Nat) (hstart : d.node? start = some (.directory mode))
    (hsearch : d.allows mode .search) (hclosing : step ≠ closing) (hstep : step = here) :
    Passes d start step start
  | climbs (mode : Nat) (hstart : d.node? start = some (.directory mode))
    (hsearch : d.allows mode .search) (hclosing : step ≠ closing) (hhere : step ≠ here)
    (hstep : step = up) : Passes d start step start.dropLast

-- A step to an entry of a directory, which is `node`.
structure Opens (d : Disk) (purpose : Purpose) (start : Place) (step : Name) (steps : List Name)
    (node : Node) : Prop where
  directory : ∃ mode, d.node? start = some (.directory mode) ∧ d.allows mode .search
  ne_closing : step ≠ closing
  ne_here : step ≠ here
  ne_up : step ≠ up
  make : ¬(purpose = .make ∧ steps = [closing])
  length : ¬maxName < step.length
  node : d.node? (start ++ [step]) = some node

theorem walkWith_passes {start q : Place} {step : Name} (h : Passes d start step q)
    (purpose : Purpose) (follow : Place → List Name → Except Errno Found) (steps : List Name) :
    walkWith d purpose follow start (step :: steps) = walkWith d purpose follow q steps := by
  rw [walkWith]
  cases h with
  | closes mode hstart hstep => simp only [hstart, hstep, if_true]
  | stays mode hstart hsearch hclosing hstep =>
    simp only [hstart, hsearch, hclosing, if_false, Bool.not_true, Bool.false_eq_true]
    rw [if_pos hstep]
  | climbs mode hstart hsearch hclosing hhere hstep =>
    simp only [hstart, hsearch, hclosing, hhere, if_false, Bool.not_true, Bool.false_eq_true]
    rw [if_pos hstep]

theorem walkWith_opens {start : Place} {step : Name} {steps : List Name} {node : Node}
    (h : Opens d purpose start step steps node)
    (follow : Place → List Name → Except Errno Found) :
    walkWith d purpose follow start (step :: steps) =
      match node with
      | .link target =>
        if steps = [] ∧ purpose = .name then .ok (.node (start ++ [step]) (.link target))
        else if target = [] then .error .noEntry
        else follow (startOf start target) (walkSteps target ++ steps)
      | _ => walkWith d purpose follow (start ++ [step]) steps := by
  obtain ⟨mode, hstart, hsearch⟩ := h.directory
  rw [walkWith]
  simp only [hstart, hsearch, h.ne_closing, h.ne_here, h.ne_up, h.make, h.length, h.node, if_false,
    Bool.not_true, Bool.false_eq_true]
  cases node <;> rfl

/-- A walk that ends at a node takes its first step in one of these two ways. -/
theorem walkWith_cons {start place : Place} {step : Name} {steps : List Name} {node : Node}
    (h : walkWith d purpose follow start (step :: steps) = .ok (.node place node)) :
    (∃ q, Passes d start step q) ∨ ∃ node', Opens d purpose start step steps node' := by
  rw [walkWith] at h
  split at h
  · cases h
  next mode hstart =>
    by_cases hclosing : step = closing
    · exact .inl ⟨_, .closes mode hstart hclosing⟩
    by_cases hsearch : d.allows mode .search
    · by_cases hhere : step = here
      · exact .inl ⟨_, .stays mode hstart hsearch hclosing hhere⟩
      by_cases hup : step = up
      · exact .inl ⟨_, .climbs mode hstart hsearch hclosing hhere hup⟩
      simp only [hsearch, hclosing, hhere, hup, if_false, Bool.not_true, Bool.false_eq_true] at h
      by_cases hmake : purpose = .make ∧ steps = [closing]
      · rw [if_pos hmake] at h
        cases h
      by_cases hlength : maxName < step.length
      · rw [if_neg hmake, if_pos hlength] at h
        cases h
      rw [if_neg hmake, if_neg hlength] at h
      cases hnode : d.node? (start ++ [step]) with
      | none =>
        rw [hnode] at h
        dsimp only at h
        split at h <;> cases h
      | some node' =>
        exact .inr ⟨node', ⟨mode, hstart, hsearch⟩, hclosing, hhere, hup, hmake, hlength, hnode⟩
    · simp [hsearch, hclosing] at h
  · cases h

/-! ## 2. Walks that go on -/

theorem Opens.append {start : Place} {step : Name} {steps rest : List Name} {node : Node}
    (h : Opens d .use start step steps node) (hrest : rest ≠ []) (hclosing : rest ≠ [closing]) :
    Opens d purpose start step (steps ++ rest) node := by
  refine ⟨h.directory, h.ne_closing, h.ne_here, h.ne_up, fun hmake => ?_, h.length, h.node⟩
  rcases List.append_eq_cons_iff.mp hmake.2 with ⟨-, hrest'⟩ | ⟨more, -, happ⟩
  · exact hclosing hrest'
  · exact hrest (List.append_eq_nil_iff.mp happ.symm).2

/-- A walk for use that ends at a place, taken further from there. -/
theorem walkWith_append {follow' : Place → List Name → Except Errno Found} {start place : Place}
    {steps rest : List Name} {node : Node} {result : Except Errno Found} (hrest : rest ≠ [])
    (hclosing : rest ≠ [closing]) (h : walkWith d .use follow start steps = .ok (.node place node))
    (hfollow : ∀ q steps, follow q steps = .ok (.node place node) →
      follow' q (steps ++ rest) = result)
    (hgo : walkWith d purpose follow' place rest = result) :
    walkWith d purpose follow' start (steps ++ rest) = result := by
  induction steps generalizing start with
  | nil =>
    rw [walkWith] at h
    split at h
    · cases h
      exact hgo
    · cases h
  | cons step steps ih =>
    rw [List.cons_append]
    rcases walkWith_cons h with ⟨q, hpass⟩ | ⟨node', hopen⟩
    · rw [walkWith_passes hpass] at h ⊢
      exact ih h
    · rw [walkWith_opens hopen] at h
      rw [walkWith_opens (hopen.append hrest hclosing)]
      cases node' with
      | link target =>
        have hne : steps ++ rest ≠ [] := fun happ => hrest (List.append_eq_nil_iff.mp happ).2
        simp only [hne, false_and, and_false, reduceCtorEq, if_false] at h ⊢
        split
        next hempty =>
          rw [if_pos hempty] at h
          cases h
        next hempty =>
          rw [if_neg hempty] at h
          have hgoes := hfollow _ _ h
          rwa [List.append_assoc] at hgoes
      | file | directory | device => exact ih h

/-- What comes after a walk to a place does not depend on how the place was reached. -/
theorem walk_append {links : Nat} {start place : Place} {steps rest : List Name} {node : Node}
    {result : Except Errno Found} (hrest : rest ≠ []) (hclosing : rest ≠ [closing])
    (h : d.walk .use links start steps = .ok (.node place node))
    (hgo : ∀ follow, walkWith d purpose follow place rest = result) :
    d.walk purpose links start (steps ++ rest) = result := by
  induction links generalizing start steps with
  | zero => exact walkWith_append hrest hclosing h (fun _ _ h => by cases h) (hgo _)
  | succ links ih => exact walkWith_append hrest hclosing h (fun _ _ h => ih h) (hgo _)

/-! ## 3. Walks on a disk where only files may go -/

section
variable {d' : Disk} (hbound : d'.bound = d.bound)
  (hnodes : ∀ q node, (∀ id, node ≠ .file id) → d.node? q = some node → d'.node? q = some node)
include hbound hnodes

theorem Passes.mono {start q : Place} {step : Name} (h : Passes d start step q) :
    Passes d' start step q := by
  have hallows (mode : Nat) (access : Access) : d'.allows mode access = d.allows mode access := by
    rw [allows, allows, hbound]
  have hdirectory {mode : Nat} (hstart : d.node? start = some (.directory mode)) :
      d'.node? start = some (.directory mode) := hnodes _ _ (fun _ => nofun) hstart
  cases h with
  | closes mode hstart hstep => exact .closes mode (hdirectory hstart) hstep
  | stays mode hstart hsearch hclosing hstep =>
    exact .stays mode (hdirectory hstart) (by rw [hallows, hsearch]) hclosing hstep
  | climbs mode hstart hsearch hclosing hhere hstep =>
    exact .climbs mode (hdirectory hstart) (by rw [hallows, hsearch]) hclosing hhere hstep

theorem Opens.mono {start : Place} {step : Name} {steps : List Name} {node : Node}
    (h : Opens d purpose start step steps node) (hnode : ∀ id, node ≠ .file id) :
    Opens d' purpose start step steps node := by
  obtain ⟨mode, hstart, hsearch⟩ := h.directory
  refine ⟨⟨mode, hnodes _ _ (fun _ => nofun) hstart, ?_⟩, h.ne_closing, h.ne_here, h.ne_up, h.make,
    h.length, hnodes _ _ hnode h.node⟩
  rw [allows, hbound]
  exact hsearch

-- From a file no walk leads on to a directory.
omit hbound hnodes in
theorem walkWith_file_ne {start place : Place} {steps : List Name} {id : FileId} {mode : Nat}
    (hstart : d.node? start = some (.file id)) :
    walkWith d purpose follow start steps ≠ .ok (.node place (.directory mode)) := by
  cases steps <;> simp [walkWith, hstart]

theorem walkWith_mono {follow' : Place → List Name → Except Errno Found}
    {start place : Place} {steps : List Name} {mode : Nat}
    (hfollow : ∀ q steps, follow q steps = .ok (.node place (.directory mode)) →
      follow' q steps = .ok (.node place (.directory mode)))
    (h : walkWith d purpose follow start steps = .ok (.node place (.directory mode))) :
    walkWith d' purpose follow' start steps = .ok (.node place (.directory mode)) := by
  induction steps generalizing start with
  | nil =>
    unfold walkWith at h ⊢
    split at h
    next node' hnode =>
      cases h
      rw [hnodes place (.directory mode) (fun _ => nofun) hnode]
    next => cases h
  | cons step steps ih =>
    rcases walkWith_cons h with ⟨q, hpass⟩ | ⟨node', hopen⟩
    · rw [walkWith_passes hpass] at h
      rw [walkWith_passes (hpass.mono hbound hnodes)]
      exact ih h
    · rw [walkWith_opens hopen] at h
      cases node' with
      | file id => exact absurd h (walkWith_file_ne hopen.node)
      | link target =>
        rw [walkWith_opens (hopen.mono hbound hnodes fun _ => nofun)]
        dsimp only at h ⊢
        split
        next hlast => rwa [if_pos hlast] at h
        next hlast =>
          rw [if_neg hlast] at h
          split
          next hempty =>
            rw [if_pos hempty] at h
            cases h
          next hempty =>
            rw [if_neg hempty] at h
            exact hfollow _ _ h
      | directory | device =>
        rw [walkWith_opens (hopen.mono hbound hnodes fun _ => nofun)]
        exact ih h

/-- A walk that ends at a directory ends there as well when more stands on the disk, or when files
have gone. -/
theorem walk_mono {links : Nat} {start place : Place} {steps : List Name} {mode : Nat}
    (h : d.walk purpose links start steps = .ok (.node place (.directory mode))) :
    d'.walk purpose links start steps = .ok (.node place (.directory mode)) := by
  induction links generalizing start steps with
  | zero => exact walkWith_mono hbound hnodes (fun _ _ h => by cases h) h
  | succ links ih => exact walkWith_mono hbound hnodes (fun _ _ h => ih h) h

end

/-! ## 4. Where walks end -/

/-- What is found at a place. -/
def foundAt (d : Disk) (place : Place) : Found :=
  match d.node? place with
  | some node => .node place node
  | none => .vacant place

@[simp] theorem place_foundAt (d : Disk) (place : Place) : (d.foundAt place).place = place := by
  unfold foundAt
  split <;> rfl

theorem foundAt_of_some {place : Place} {node : Node} (h : d.node? place = some node) :
    d.foundAt place = .node place node := by
  rw [foundAt, h]

theorem foundAt_of_none {place : Place} (h : d.node? place = none) :
    d.foundAt place = .vacant place := by
  rw [foundAt, h]

theorem foundAt_of_walkWith {start : Place} {steps : List Name} {found : Found}
    (hfollow : ∀ q steps, follow q steps = .ok found → d.foundAt found.place = found)
    (h : walkWith d purpose follow start steps = .ok found) : d.foundAt found.place = found := by
  induction steps generalizing start with
  | nil =>
    rw [walkWith] at h
    split at h
    next node hnode =>
      cases h
      exact foundAt_of_some hnode
    next => cases h
  | cons step steps ih =>
    rw [walkWith] at h
    split at h
    · cases h
    · split at h
      · exact ih h
      split at h
      · cases h
      split at h
      · exact ih h
      split at h
      · exact ih h
      split at h
      · cases h
      split at h
      · cases h
      split at h
      next hnone =>
        split at h
        · cases h
          exact foundAt_of_none hnone
        · cases h
      next hlink =>
        split at h
        · cases h
          exact foundAt_of_some hlink
        split at h
        · cases h
        · exact hfollow _ _ h
      · exact ih h
    · cases h

/-- A walk ends at what is found where it ends. -/
theorem foundAt_of_walk {links : Nat} {start : Place} {steps : List Name} {found : Found}
    (h : d.walk purpose links start steps = .ok found) : d.foundAt found.place = found := by
  induction links generalizing start steps with
  | zero => exact foundAt_of_walkWith (fun _ _ h => by cases h) h
  | succ links ih => exact foundAt_of_walkWith (fun _ _ h => ih h) h

theorem foundAt_of_trace {path : Path} {found : Found} (h : d.trace purpose path = .ok found) :
    d.foundAt found.place = found := by
  unfold trace at h
  split at h
  · cases h
  · exact foundAt_of_walk h

theorem node?_of_foundAt {q place : Place} {node : Node} (h : d.foundAt q = .node place node) :
    d.node? place = some node := by
  unfold foundAt at h
  split at h
  next hnode =>
    cases h
    exact hnode
  next => cases h

theorem node?_of_walk {links : Nat} {start place : Place} {steps : List Name} {node : Node}
    (h : d.walk purpose links start steps = .ok (.node place node)) :
    d.node? place = some node :=
  node?_of_foundAt (foundAt_of_walk h)

/-- What a path leads to stands there. -/
theorem node?_of_follow {path : Path} {place : Place} {node : Node}
    (h : d.follow path = .ok (.node place node)) : d.node? place = some node :=
  node?_of_foundAt (foundAt_of_trace h)

/-- Nothing stands where a path leads to a free place. -/
theorem node?_of_vacant {path : Path} {place : Place}
    (h : d.trace purpose path = .ok (.vacant place)) : d.node? place = none := by
  have hfound : d.foundAt place = .vacant place := foundAt_of_trace h
  unfold foundAt at hfound
  split at hfound
  · cases hfound
  next hnone => exact hnone

theorem walkWith_of_make {follow' : Place → List Name → Except Errno Found} {start : Place}
    {steps : List Name} {found : Found}
    (hfollow : ∀ q steps, follow q steps = .ok found →
      ∃ found', follow' q steps = .ok found' ∧ (purpose = .name ∨ found' = found))
    (h : walkWith d .make follow start steps = .ok found) :
    ∃ found', walkWith d purpose follow' start steps = .ok found' ∧
      (purpose = .name ∨ found' = found) := by
  induction steps generalizing start with
  | nil =>
    rw [walkWith] at h ⊢
    exact ⟨found, h, .inr rfl⟩
  | cons step steps ih =>
    rw [walkWith] at h ⊢
    split at h
    · cases h
    next mode hstart =>
      by_cases hclosing : step = closing
      · rw [if_pos hclosing] at h ⊢
        exact ih h
      by_cases hsearch : (!d.allows mode .search) = true
      · rw [if_neg hclosing, if_pos hsearch] at h
        cases h
      by_cases hhere : step = here
      · rw [if_neg hclosing, if_neg hsearch, if_pos hhere] at h ⊢
        exact ih h
      by_cases hup : step = up
      · rw [if_neg hclosing, if_neg hsearch, if_neg hhere, if_pos hup] at h ⊢
        exact ih h
      rw [if_neg hclosing, if_neg hsearch, if_neg hhere, if_neg hup] at h ⊢
      by_cases hlast : steps = [closing]
      · rw [if_pos ⟨rfl, hlast⟩] at h
        cases h
      rw [if_neg fun h => hlast h.2] at h ⊢
      by_cases hlength : maxName < step.length
      · rw [if_pos hlength] at h
        cases h
      rw [if_neg hlength] at h ⊢
      split at h
      · exact ⟨found, h, .inr rfl⟩
      -- only a look at a name stops at a link, and then it has come to its end
      next target hlink =>
        simp only [reduceCtorEq, and_false, if_false] at h ⊢
        split at h
        · cases h
        · split
          next hname => exact ⟨_, rfl, .inl hname.2⟩
          next => exact hfollow _ _ h
      · exact ih h
    · cases h

theorem walk_of_make {links : Nat} {start : Place} {steps : List Name} {found : Found}
    (h : d.walk .make links start steps = .ok found) :
    ∃ found', d.walk purpose links start steps = .ok found' ∧
      (purpose = .name ∨ found' = found) := by
  induction links generalizing start steps with
  | zero => exact walkWith_of_make (fun _ _ h => by cases h) h
  | succ links ih => exact walkWith_of_make (fun _ _ h => ih h) h

theorem trace_of_make {path : Path} {found : Found} (h : d.trace .make path = .ok found)
    (purpose : Purpose) :
    ∃ found', d.trace purpose path = .ok found' ∧ (purpose = .name ∨ found' = found) := by
  unfold trace at h ⊢
  split at h
  · cases h
  next hsize =>
    rw [if_neg hsize]
    exact walk_of_make h

/-- What a path leads to when a file is to be made there, it leads to in any case. -/
theorem follow_of_make {path : Path} {found : Found} (h : d.trace .make path = .ok found) :
    d.follow path = .ok found := by
  obtain ⟨found', hfollow, hname | rfl⟩ := trace_of_make h .use
  · cases hname
  · exact hfollow

/-- Where a file may be made, the path names something or could. -/
theorem locate_of_make {path : Path} {found : Found} (h : d.trace .make path = .ok found) :
    ∃ found', d.locate path = .ok found' := by
  obtain ⟨found', hlocate, -⟩ := trace_of_make h .name
  exact ⟨found', hlocate⟩

/-! ## 5. Plain steps -/

/-- The last step of a walk, where no link stands. -/
theorem walkWith_last (purpose : Purpose) (follow : Place → List Name → Except Errno Found)
    {place : Place} {mode : Nat} {step : Name}
    (hplace : d.node? place = some (.directory mode)) (hsearch : d.allows mode .search)
    (hplain : Plain step) (hlink : ∀ target, d.node? (place ++ [step]) ≠ some (.link target)) :
    walkWith d purpose follow place [step] =
      if maxName < step.length then .error .nameTooLong
      else .ok (d.foundAt (place ++ [step])) := by
  have hmake : ¬(purpose = .make ∧ ([] : List Name) = [closing]) := fun h => nomatch h.2
  have hclosing : step ≠ closing := hplain.ne_nil
  simp only [walkWith, hplace, hclosing, hsearch, hplain.ne_here, hplain.ne_up, hmake, if_false,
    Bool.not_true, Bool.false_eq_true]
  split
  · rfl
  · unfold foundAt
    cases hnode : d.node? (place ++ [step]) with
    | none => simp
    | some node =>
      cases node with
      | link target => exact absurd hnode (hlink target)
      | _ => simp

/-- A step into a directory. -/
theorem walkWith_into {place : Place} {mode mode' : Nat} {step : Name} {steps : List Name}
    (hplace : d.node? place = some (.directory mode)) (hsearch : d.allows mode .search)
    (hplain : Plain step) (hlength : step.length ≤ maxName)
    (hinto : d.node? (place ++ [step]) = some (.directory mode')) (hsteps : steps ≠ [closing]) :
    walkWith d purpose follow place (step :: steps) =
      walkWith d purpose follow (place ++ [step]) steps := by
  have hopen : Opens d purpose place step steps (.directory mode') :=
    ⟨⟨mode, hplace, hsearch⟩, hplain.ne_nil, hplain.ne_here, hplain.ne_up, fun h => hsteps h.2,
      Nat.not_lt.mpr hlength, hinto⟩
  exact walkWith_opens hopen follow

/-- A step to where nothing stands, with more steps to come. -/
theorem walkWith_missing {place : Place} {mode : Nat} {step : Name} {steps : List Name}
    (hplace : d.node? place = some (.directory mode)) (hsearch : d.allows mode .search)
    (hplain : Plain step) (hlength : step.length ≤ maxName)
    (hnone : d.node? (place ++ [step]) = none) (hsteps : steps ≠ [closing]) (hmore : steps ≠ []) :
    walkWith d purpose follow place (step :: steps) = .error .noEntry := by
  have hclosing : step ≠ closing := hplain.ne_nil
  have hlength' : ¬maxName < step.length := by omega
  rw [walkWith]
  simp only [hplace, hclosing, hsearch, hplain.ne_here, hplain.ne_up, hsteps, hlength', hnone,
    hmore, and_false, if_false, Bool.not_true, Bool.false_eq_true]

/-! ## 6. Plain paths -/

/-- Whether plain steps can be taken from a place, all but the last one into directories.  What
stands at the end makes no difference. -/
def approach (d : Disk) : Place → List Name → Except Errno Unit
  | _, [] => .ok ()
  | place, step :: steps =>
    match d.node? place with
    | none => .error .noEntry
    | some (.directory mode) =>
      if !d.allows mode .search then .error .accessDenied
      else if maxName < step.length then .error .nameTooLong
      else approach d (place ++ [step]) steps
    | some _ => .error .notDirectory

/-- Where no link stands on the way, a walk of plain steps leads straight down.  A link at the end
is no hindrance to a walk that is for what the path names. -/
theorem walkWith_plain (purpose : Purpose) (follow : Place → List Name → Except Errno Found)
    {start : Place} {steps : List Name} (hsteps : ∀ step ∈ steps, Plain step) (hne : steps ≠ [])
    (hlink : ∀ more target, more ≠ [] → more <+: steps →
      d.node? (start ++ more) = some (.link target) → more = steps ∧ purpose = .name)
    (hstart : ∀ target, d.node? start ≠ some (.link target)) :
    walkWith d purpose follow start steps =
      (d.approach start steps).map fun _ => d.foundAt (start ++ steps) := by
  induction steps generalizing start with
  | nil => exact absurd rfl hne
  | cons step steps ih =>
    have hplain : Plain step := hsteps step List.mem_cons_self
    have hclosing : step ≠ closing := hplain.ne_nil
    have hrest (step' : Name) (hmem : step' ∈ steps) : Plain step' :=
      hsteps step' (List.mem_cons_of_mem _ hmem)
    have hmake : ¬(purpose = .make ∧ steps = [closing]) := by
      rintro ⟨-, rfl⟩
      exact (hrest closing List.mem_cons_self).ne_nil rfl
    rw [walkWith, approach]
    cases hnode : d.node? start with
    | none => rfl
    | some node =>
      cases node with
      | link target => exact absurd hnode (hstart target)
      | file id => rfl
      | device device => rfl
      | directory mode =>
        simp only [hclosing, hplain.ne_here, hplain.ne_up, hmake, if_false]
        by_cases hsearch : d.allows mode .search
        · simp only [hsearch, Bool.not_true, Bool.false_eq_true, if_false]
          by_cases hlength : maxName < step.length
          · rw [if_pos hlength, if_pos hlength]
            rfl
          · rw [if_neg hlength, if_neg hlength]
            have hlink' (target : Bytes) (hnext : d.node? (start ++ [step]) = some (.link target)) :
                [step] = step :: steps ∧ purpose = .name :=
              hlink [step] target (List.cons_ne_nil _ _) ⟨steps, rfl⟩ hnext
            rw [show start ++ step :: steps = start ++ [step] ++ steps by simp]
            cases steps with
            | nil =>
              rw [List.append_nil]
              unfold foundAt
              cases hnext : d.node? (start ++ [step]) with
              | none => rfl
              | some node =>
                cases node with
                | link target => simp [hlink' target hnext, approach, Except.map]
                | _ => simp [walkWith, hnext, approach, Except.map]
            | cons step' steps =>
              -- more steps are to come, so what stands here is not a link
              have hthrough (target : Bytes) :
                  d.node? (start ++ [step]) ≠ some (.link target) := fun hnext =>
                nomatch (hlink' target hnext).1
              have hgo := ih hrest (List.cons_ne_nil _ _) (fun more target hmore hle hnext => by
                rw [List.append_assoc] at hnext
                obtain ⟨heq, hname⟩ :=
                  hlink _ target (by simp) (List.prefix_cons_inj step |>.mpr hle) hnext
                exact ⟨(List.cons.inj heq).2, hname⟩) hthrough
              cases hnext : d.node? (start ++ [step]) with
              | none => simp [approach, hnext, Except.map]
              | some node =>
                cases node with
                | link target => exact absurd hnext (hthrough target)
                | _ => exact hgo
        · simp only [hsearch, Bool.not_false, if_true]
          rfl

/-! ## 7. One step more -/

/-- What becomes of a walk that comes to a result when it is asked to take one step more.  At most
`links` links are followed from where it would have ended. -/
inductive Onward (d : Disk) (purpose : Purpose) (links : Nat) (step : Name) :
    Except Errno Found → Except Errno Found → Prop
  | failed (e : Errno) : Onward d purpose links step (.error e) (.error e)
  | vacant (q : Place) : Onward d purpose links step (.ok (.vacant q)) (.error .noEntry)
  | node (q : Place) (node : Node) {links' : Nat} (hlinks : links' ≤ links) :
    Onward d purpose links step (.ok (.node q node)) (d.walk purpose links' q [step])

theorem Onward.mono {links links' : Nat} {step : Name} {r r' : Except Errno Found}
    (h : Onward d purpose links step r r') (hle : links ≤ links') :
    Onward d purpose links' step r r' := by
  cases h with
  | failed e => exact .failed e
  | vacant q => exact .vacant q
  | node q node hlinks => exact .node q node (Nat.le_trans hlinks hle)

theorem Onward.of_error {links : Nat} {step : Name} {e : Errno} {r' : Except Errno Found}
    (h : Onward d purpose links step (.error e) r') : r' = .error e := by
  cases h
  rfl

theorem Onward.of_vacant {links : Nat} {step : Name} {q : Place} {r' : Except Errno Found}
    (h : Onward d purpose links step (.ok (.vacant q)) r') : r' = .error .noEntry := by
  cases h
  rfl

/-- From where the walk would have ended, the last step is taken. -/
theorem Onward.of_node {links : Nat} {step : Name} {q : Place} {node : Node}
    {r' : Except Errno Found} (h : Onward d purpose links step (.ok (.node q node)) r') :
    ∃ follow, r' = walkWith d purpose follow q [step] := by
  cases h with
  | @node _ _ links' _ =>
    cases links' with
    | zero => exact ⟨_, rfl⟩
    | succ links' => exact ⟨_, rfl⟩

theorem walkWith_concat {follow' : Place → List Name → Except Errno Found} {links : Nat}
    {step : Name} (hclosing : step ≠ closing) (start : Place) (steps : List Name)
    (hwalk : ∀ q, walkWith d purpose follow' q [step] = d.walk purpose links q [step])
    (hfollow : ∀ q steps,
      Onward d purpose links step (follow q steps) (follow' q (steps ++ [step]))) :
    Onward d purpose links step (walkWith d .use follow start steps)
      (walkWith d purpose follow' start (steps ++ [step])) := by
  induction steps generalizing start with
  | nil =>
    rw [List.nil_append, walkWith]
    cases hstart : d.node? start with
    | none =>
      rw [walkWith, hstart]
      exact .failed _
    | some node =>
      rw [hwalk]
      exact .node start node (Nat.le_refl links)
  | cons step' steps ih =>
    -- with a step to come, no other one is the last
    have hmake : ¬(purpose = .make ∧ steps ++ [step] = [closing]) := by
      rintro ⟨-, heq⟩
      have hlast := congrArg List.getLast? heq
      rw [List.getLast?_concat] at hlast
      exact hclosing (Option.some.inj hlast)
    have hne : ¬steps ++ [step] = [] := List.concat_ne_nil _ _
    rw [List.cons_append, walkWith, walkWith]
    cases d.node? start with
    | none => exact .failed _
    | some node =>
      cases node with
      | file | link | device => exact .failed _
      | directory mode =>
        simp only [hmake, hne, false_and, and_false, if_false, reduceCtorEq]
        split
        · exact ih start
        split
        · exact .failed _
        split
        · exact ih start
        split
        · exact ih start.dropLast
        split
        · exact .failed _
        cases d.node? (start ++ [step']) with
        | none =>
          dsimp only
          split
          · exact .vacant _
          · exact .failed _
        | some node =>
          cases node with
          | link target =>
            dsimp only
            split
            · exact .failed _
            · rw [← List.append_assoc]
              exact hfollow _ _
          | file | directory | device => exact ih _

/-- A walk that is asked for one step more fails where it failed, and goes on where it ended. -/
theorem walk_concat {step : Name} (hclosing : step ≠ closing) (links : Nat) (start : Place)
    (steps : List Name) :
    Onward d purpose links step (d.walk .use links start steps)
      (d.walk purpose links start (steps ++ [step])) := by
  induction links generalizing start steps with
  | zero => exact walkWith_concat hclosing start steps (fun _ => rfl) fun _ _ => .failed _
  | succ links ih =>
    exact walkWith_concat hclosing start steps (fun _ => rfl) fun q steps =>
      (ih q steps).mono (Nat.le_succ links)

/-- The search for one step more goes by where a path leads. -/
theorem onward_trace (purpose : Purpose) (d : Disk) (p : Path) {step : Name}
    (hclosing : step ≠ closing) (hsize : { p with steps := p.steps ++ [step] }.size ≤ maxPath) :
    Onward d purpose maxLinks step (d.follow p)
      (d.trace purpose { p with steps := p.steps ++ [step] }) := by
  have hle : p.size ≤ { p with steps := p.steps ++ [step] }.size := by
    simp only [Path.size, Path.reach_append]
    omega
  rw [follow, trace, trace, if_neg (Nat.not_lt.mpr hsize),
    if_neg (Nat.not_lt.mpr (Nat.le_trans hle hsize))]
  exact walk_concat hclosing _ _ _

/-- No step leads on from what is no directory. -/
theorem trace_beyond {p : Path} {step : Name} (hclosing : step ≠ closing) {place : Place}
    {node : Node} (hfollow : d.follow p = .ok (.node place node))
    (hnode : ∀ mode, node ≠ .directory mode) :
    ∃ e, e ≠ .noEntry ∧
      ∀ purpose, d.trace purpose { p with steps := p.steps ++ [step] } = .error e := by
  by_cases hsize : maxPath < { p with steps := p.steps ++ [step] }.size
  · refine ⟨.nameTooLong, nofun, fun purpose => ?_⟩
    rw [trace, if_pos hsize]
  · refine ⟨.notDirectory, nofun, fun purpose => ?_⟩
    have honward := onward_trace purpose d p hclosing (Nat.not_lt.mp hsize)
    rw [hfollow] at honward
    obtain ⟨follow, hlast⟩ := honward.of_node
    rw [hlast, walkWith, node?_of_follow hfollow]
    cases node with
    | directory mode => exact absurd rfl (hnode mode)
    | _ => rfl

/-! ## 8. How walks fail -/

/-- The failures that do not say whether anything stands where a path would lead. -/
def hindrances : List Errno := [.notDirectory, .accessDenied, .nameTooLong, .loop]

theorem hindrance_of_walkWith {start : Place} {steps : List Name} {e : Errno}
    (hpurpose : purpose ≠ .make)
    (hfollow : ∀ q steps, follow q steps = .error e → e = .noEntry ∨ e ∈ hindrances)
    (h : walkWith d purpose follow start steps = .error e) : e = .noEntry ∨ e ∈ hindrances := by
  have hin (e : Errno) (hmem : e ∈ .noEntry :: hindrances) : e = .noEntry ∨ e ∈ hindrances :=
    List.mem_cons.mp hmem
  induction steps generalizing start with
  | nil =>
    rw [walkWith] at h
    split at h <;> cases h
    exact .inl rfl
  | cons step steps ih =>
    rw [walkWith] at h
    split at h
    · cases h
      exact .inl rfl
    · split at h
      · exact ih h
      split at h
      · cases h
        exact hin _ (by decide)
      split at h
      · exact ih h
      split at h
      · exact ih h
      split at h
      next hmake => exact absurd hmake.1 hpurpose
      split at h
      · cases h
        exact hin _ (by decide)
      split at h
      · split at h <;> cases h
        exact .inl rfl
      · split at h
        · cases h
        split at h
        · cases h
          exact .inl rfl
        · exact hfollow _ _ h
      · exact ih h
    · cases h
      exact hin _ (by decide)

/-- A walk that does not come to its end tells that nothing is there, or what hinders it. -/
theorem hindrance_of_walk {links : Nat} {start : Place} {steps : List Name} {e : Errno}
    (hpurpose : purpose ≠ .make) (h : d.walk purpose links start steps = .error e) :
    e = .noEntry ∨ e ∈ hindrances := by
  induction links generalizing start steps with
  | zero =>
    refine hindrance_of_walkWith hpurpose (fun _ _ h => ?_) h
    cases h
    exact .inr (by decide)
  | succ links ih => exact hindrance_of_walkWith hpurpose (fun _ _ h => ih h) h

theorem hindrance_of_trace {path : Path} {e : Errno} (hpurpose : purpose ≠ .make)
    (h : d.trace purpose path = .error e) : e = .noEntry ∨ e ∈ hindrances := by
  unfold trace at h
  split at h
  · cases h
    exact .inr (by decide)
  · exact hindrance_of_walk hpurpose h

end UserVault.Disk
