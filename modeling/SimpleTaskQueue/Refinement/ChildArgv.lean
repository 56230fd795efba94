import Mathlib.Data.Nat.Find
import SimpleTaskQueue.Model.Proc.ChildArgv
/-!
# SimpleTaskQueue.Refinement.ChildArgv

`buildChildArgv` and `startChild` **on the memory** of the child do what they do without it
(`startChild_run`). While `buildChildArgv` works, the array and the strings made so far are the last
blocks of the heap, in this order (`built`). From there it goes on to the next string, or frees them
all.
-/

namespace SimpleTaskQueue

open Blocks

namespace LinuxProc

variable {alloc : Nat → Bool} {h : Heap Cell} {task : Task} {strings args : List Str} {arg : Str}
  {cs : List Cell} {blocks : Heap Cell} {p n k i j : Nat}

/-! ### The heap on the way -/

/-- The array at `p`: pointers to the `n` blocks behind it, and `k` null pointers. -/
def entries (p n k : Nat) : List Cell :=
  (List.range' (p + 1) n).map (fun q => .pointer (some q)) ++ List.replicate k (.pointer none)

/-- Behind `h` the array with `n` pointers, and the strings. -/
def built (h : Heap Cell) (strings : List Str) (n k : Nat) : Heap Cell :=
  h ++ .live (entries h.length n k) :: strings.map fun s => .live (cStr s)

@[simp] theorem length_entries : (entries p n k).length = n + k := by
  simp [entries]

theorem entries_getElem? (hj : j < n) :
    (entries p n k)[j]? = some (.pointer (some (p + 1 + j))) := by
  rw [entries, List.getElem?_append_left (by simpa using hj)]
  simp [hj]

theorem entries_getElem?_null : (entries p n (k + 1))[n]? = some (.pointer none) := by
  rw [entries, List.getElem?_append_right (by simp)]
  simp

theorem entries_set : (entries p n (k + 1)).set n (.pointer (some (p + 1 + n))) =
    entries p (n + 1) k := by
  simp [entries, List.set_append_right, List.replicate_succ, List.range'_concat]

theorem entries_set_null : (entries p n (k + 1)).set n (.pointer none) = entries p n (k + 1) := by
  simp [entries, List.set_append_right, List.replicate_succ]

@[simp] theorem length_built : (built h strings n k).length = h.length + 1 + strings.length := by
  simp [built]
  omega

theorem built_snoc : built h strings n k ++ .live (cStr arg) :: [] =
    built h (strings ++ [arg]) n k := by
  simp [built]

@[simp] theorem length_cStr (s : Str) : (cStr s).length = s.length + 1 := by
  simp [cStr]

/-- `memcpy` with the NUL. -/
theorem cStr_copied (s : Str) :
    (cStr s).take (s.length + 1) ++
      (List.replicate (s.length + 1) (Cell.char nul)).drop (s.length + 1) = cStr s := by
  rw [← length_cStr, List.take_length]
  simp

/-- `memcpy` without the NUL, which is written behind it. -/
theorem cStr_terminated (s : Str) :
    ((cStr s).take s.length ++ (List.replicate (s.length + 1) (Cell.char nul)).drop s.length).set
      s.length (.char nul) = cStr s := by
  simp [cStr]

/-! ### One entry -/

theorem loadPointer_at {q : Option Nat} (h blocks : Heap Cell) (hcs : cs[i]? = some (.pointer q)) :
    (loadPointer h.length i).run (h ++ .live cs :: blocks) = some (q, h ++ .live cs :: blocks) := by
  rw [loadPointer, run_bind (load_at hcs)]
  rfl

/-- The next entry, if its block can be allocated. -/
theorem run_newEntry {β : Type} {f : Option Nat → Memory Cell β} (hn : n = strings.length)
    (m : Nat) :
    (do
      store h.length n (.pointer (← newChars true m))
      f (← loadPointer h.length n)).run (built h strings n (k + 1)) =
    (f (some (built h strings (n + 1) k).length)).run
      (built h strings (n + 1) k ++ .live (List.replicate m (.char nul)) :: []) := by
  have hnew : (newChars true m).run (built h strings n (k + 1)) =
      some (some (h.length + 1 + n), h ++ .live (entries h.length n (k + 1)) ::
        (strings.map (fun s => .live (cStr s)) ++ [.live (List.replicate m (.char nul))])) := by
    rw [newChars, new_ok, length_built, built, hn]
    simp
  rw [run_bind hnew, run_bind (store_at (by simp)), entries_set,
    run_bind (loadPointer_at _ _ (entries_getElem? (Nat.lt_succ_self _))), length_built, built, hn]
  simp

/-- The next entry, if its block cannot be allocated. -/
theorem run_noEntry {β : Type} {f : Option Nat → Memory Cell β} (m : Nat) :
    (do
      store h.length n (.pointer (← newChars false m))
      f (← loadPointer h.length n)).run (built h strings n (k + 1)) =
    (f none).run (built h strings n (k + 1)) := by
  rw [newChars, run_bind (new_fails _ _), built, run_bind (store_at (by simp)), entries_set_null,
    run_bind (loadPointer_at _ _ entries_getElem?_null)]

/-! ### The loops -/

/-- The loop frees the strings behind those before `j`. -/
theorem cleanLoop_run (css : List (List Cell)) (done : Heap Cell)
    (hcs : ∀ j < done.length + css.length, cs[j]? = some (.pointer (some (h.length + 1 + j)))) :
    (cleanLoop h.length css.length done.length).run
        (h ++ .live cs :: (done ++ css.map .live)) =
      some ((), h ++ .live cs :: (done ++ css.map .freed)) := by
  induction css generalizing done with
  | nil => rfl
  | cons string css ih =>
      have hload := loadPointer_at h (done ++ (string :: css).map .live) (hcs done.length (by simp))
      have hdelete := delete_at (h ++ .live cs :: done) string (css.map .live)
      have hlen : (h ++ .live cs :: done).length = h.length + 1 + done.length := by
        simp
        omega
      have hih := ih (done ++ [.freed string]) (by
        intro j hj
        refine hcs j ?_
        simp only [List.length_append, List.length_cons, List.length_nil] at hj ⊢
        omega)
      rw [hlen] at hdelete
      simp only [List.length_append, List.length_singleton, List.append_assoc, List.cons_append,
        List.nil_append] at hdelete hih
      rw [List.length_cons, cleanLoop, run_bind hload, List.map_cons, run_bind hdelete, hih]
      rfl

/-- The clean-up when the next string cannot be allocated. -/
theorem cleanUp_run (hn : n = strings.length) :
    ∃ h', (do
        cleanLoop h.length n 0
        delete (some h.length)
        pure false).run (built h strings n k) = some (false, h') ∧
      Released h h' (n + 1) := by
  have hentries : ∀ j < ([] : Heap Cell).length + (strings.map cStr).length,
      (entries h.length n k)[j]? = some (.pointer (some (h.length + 1 + j))) := by
    intro j hj
    exact entries_getElem? (by simpa [hn] using hj)
  have hclean := cleanLoop_run (strings.map cStr) [] hentries
  have hreleased := released_freed h (entries h.length n k :: strings.map cStr)
  simp only [List.length_map, List.length_cons, List.map_cons, List.nil_append, List.length_nil,
    ← hn] at hclean hreleased
  refine ⟨_, ?_, hreleased⟩
  have hbuilt : built h strings n k =
      h ++ .live (entries h.length n k) :: (strings.map cStr).map .live := by
    rw [built, List.map_map]
    rfl
  rw [hbuilt, run_bind hclean, run_bind (delete_at _ _ _)]
  rfl

/-- A round of the loop that copies the arguments. -/
theorem argLoop_cons (halloc : alloc (i + 2) = true) (hi : strings.length = i + 1) :
    (argLoop alloc h.length i (arg :: args)).run (built h strings (i + 1) (k + 1)) =
      (argLoop alloc h.length (i + 1) args).run (built h (strings ++ [arg]) (i + 2) k) := by
  rw [argLoop, halloc, run_newEntry hi.symm]
  simp only
  rw [run_bind (copy_at (by simp) (by simp)), run_bind (store_at (by simp)), cStr_terminated,
    built_snoc]

/-- The round in which the allocation fails. -/
theorem argLoop_fails (arg : Str) (args : List Str) (halloc : alloc (i + 2) = false)
    (hi : strings.length = i + 1) :
    ∃ h', (argLoop alloc h.length i (arg :: args)).run (built h strings (i + 1) (k + 1)) =
        some (false, h') ∧
      Released h h' (i + 2) := by
  obtain ⟨h', hrun, hreleased⟩ := cleanUp_run (h := h) (k := k + 1) hi.symm
  refine ⟨h', ?_, hreleased⟩
  rw [argLoop, halloc, run_noEntry]
  exact hrun

/-- All rounds for the first arguments, if their allocations succeed. -/
theorem argLoop_append (hi : strings.length = i + 1)
    (halloc : ∀ j < args.length, alloc (i + j + 2) = true) (rest : List Str) :
    (argLoop alloc h.length i (args ++ rest)).run (built h strings (i + 1) (args.length + k)) =
      (argLoop alloc h.length (i + args.length) rest).run
        (built h (strings ++ args) (i + args.length + 1) k) := by
  induction args generalizing i strings with
  | nil => simp
  | cons arg args ih =>
      have hsnoc : (strings ++ [arg]).length = i + 2 := by simpa using hi
      have hih := ih hsnoc (by
        intro j hj
        rw [Nat.add_right_comm i 1 j]
        exact halloc (j + 1) (by simpa using hj))
      have hlen : (arg :: args).length + k = args.length + k + 1 := by
        rw [List.length_cons]
        omega
      rw [hlen, List.cons_append, argLoop_cons (halloc 0 (by simp)) hi, hih]
      simp [Nat.add_assoc, Nat.add_comm 1]

/-! ### The function -/

/-- The heap behind the allocation of the array. -/
theorem run_newPointers (size : Nat) :
    (newPointers true size).run h = some (some h.length, built h [] 0 size) := by
  rw [newPointers, new_ok]
  simp [built, entries]

theorem newArray_run (halloc : alloc 0 = true) (size : Nat) :
    (if size ≠ 0 then newPointers (alloc 0) (size + 2) else newPointers (alloc 0) 2).run h =
      some (some h.length, built h [] 0 (size + 2)) := by
  rw [halloc]
  split
  · exact run_newPointers _
  · next hempty =>
    rw [not_not.mp hempty]
    exact run_newPointers _

/-- `buildChildArgv` from the loop on, when the array and the name were allocated. -/
theorem buildChildArgv_name (harray : alloc 0 = true) (hname : alloc 1 = true) :
    (buildChildArgv alloc task).run h =
      (do
        if ← argLoop alloc h.length 0 task.args then
          store h.length (task.args.length + 1) (.pointer none)
          pure (some h.length)
        else pure none).run (built h [task.execName] 1 (task.args.length + 1)) := by
  have hzero : 0 = ([] : List Str).length := rfl
  rw [buildChildArgv, run_bind (newArray_run harray _)]
  simp only
  rw [hname, run_newEntry hzero]
  simp only
  rw [run_bind (copy_at (by simp) (by simp)), cStr_copied, built_snoc]
  split
  · rfl
  · next hempty =>
    rw [List.length_eq_zero_iff.mp (not_not.mp hempty)]
    rfl

theorem buildChildArgv_ok (halloc : ∀ i < task.args.length + 2, alloc i = true) :
    (buildChildArgv alloc task).run h =
      some (some h.length, built h (task.execName :: task.args) (task.args.length + 1) 1) := by
  have hname : [task.execName].length = 0 + 1 := rfl
  have hrounds : ∀ j < task.args.length, alloc (0 + j + 2) = true :=
    fun j hj => halloc _ (by omega)
  have hloop := argLoop_append (h := h) (k := 1) hname hrounds []
  simp only [List.append_nil, Nat.zero_add, argLoop, List.singleton_append] at hloop
  rw [buildChildArgv_name (halloc 0 (by omega)) (halloc 1 (by omega)), run_bind hloop, if_pos rfl,
    built, run_bind (store_at (by simp)), entries_set_null]
  rfl

/-- The array cannot be allocated. -/
theorem buildChildArgv_noArray (hfails : alloc 0 = false) :
    (buildChildArgv alloc task).run h = some (none, h) := by
  have hnew : (if task.args.length ≠ 0 then newPointers (alloc 0) (task.args.length + 2)
      else newPointers (alloc 0) 2).run h = some (none, h) := by
    rw [hfails]
    split <;> rfl
  rw [buildChildArgv, run_bind hnew]
  rfl

/-- The name cannot be allocated. -/
theorem buildChildArgv_noName (halloc : alloc 0 = true) (hfails : alloc 1 = false) :
    ∃ h', (buildChildArgv alloc task).run h = some (none, h') ∧ Released h h' 1 := by
  refine ⟨_, ?_, released_freed h [entries h.length 0 (task.args.length + 2)]⟩
  rw [buildChildArgv, run_bind (newArray_run halloc _)]
  simp only
  rw [hfails, run_noEntry]
  simp only
  rw [built, List.map_nil, run_bind (delete_at _ _ _)]
  rfl

/-- An argument cannot be allocated. -/
theorem buildChildArgv_noArg {rest : List Str} (hargs : task.args = args ++ arg :: rest)
    (hfails : alloc (args.length + 2) = false) (halloc : ∀ j < args.length + 2, alloc j = true) :
    ∃ h', (buildChildArgv alloc task).run h = some (none, h') ∧
      Released h h' (args.length + 2) := by
  have hname : [task.execName].length = 0 + 1 := rfl
  have hrounds : ∀ j < args.length, alloc (0 + j + 2) = true :=
    fun j hj => halloc _ (by omega)
  have hlen : task.args.length + 1 = args.length + (rest.length + 1 + 1) := by
    rw [hargs, List.length_append, List.length_cons]
    omega
  have hsnoc : ([task.execName] ++ args).length = 0 + args.length + 1 := by
    simp
  obtain ⟨h', hrun, hreleased⟩ := argLoop_fails (h := h) (k := rest.length + 1) arg rest
    (by rwa [Nat.zero_add]) hsnoc
  have hloop : (argLoop alloc h.length 0 task.args).run
      (built h [task.execName] 1 (task.args.length + 1)) = some (false, h') := by
    rw [hlen, hargs, argLoop_append hname hrounds]
    exact hrun
  refine ⟨h', ?_, by simpa using hreleased⟩
  rw [buildChildArgv_name (halloc 0 (by omega)) (halloc 1 (by omega)), run_bind hloop]
  rfl

/-- If the allocation `i` is the first to fail, the `i` blocks made before are freed. -/
theorem buildChildArgv_fails (hi : i < task.args.length + 2) (hfails : alloc i = false)
    (halloc : ∀ j < i, alloc j = true) :
    ∃ h', (buildChildArgv alloc task).run h = some (none, h') ∧ Released h h' i := by
  match i with
  | 0 => exact ⟨h, buildChildArgv_noArray hfails, [], (List.append_nil h).symm, rfl, by simp⟩
  | 1 => exact buildChildArgv_noName (halloc 0 Nat.zero_lt_one) hfails
  | n + 2 =>
    have hn : n < task.args.length := Nat.lt_of_add_lt_add_right hi
    have hlen : (task.args.take n).length = n := List.length_take_of_le hn.le
    have hargs : task.args = task.args.take n ++ task.args[n] :: task.args.drop (n + 1) := by
      rw [← List.drop_eq_getElem_cons hn, List.take_append_drop]
    have hstops := buildChildArgv_noArg (h := h) hargs (by rwa [hlen]) (by rwa [hlen])
    rwa [hlen] at hstops

/-! ### The child -/

theorem cells_array (h : Heap Cell) (strings : List Str) (n k : Nat) :
    cells (built h strings n k) h.length = some (entries h.length n k) := cells_at

theorem cells_built {s : Str} (hs : strings[j]? = some s) :
    cells (built h strings n k) (h.length + 1 + j) = some (cStr s) := by
  have hblock : (built h strings n k)[h.length + 1 + j]? = some (.live (cStr s)) := by
    rw [built, List.getElem?_append_right (by omega), Nat.add_assoc, Nat.add_sub_cancel_left,
      Nat.add_comm 1 j, List.getElem?_cons_succ, List.getElem?_map, hs]
    rfl
  rw [cells, hblock]
  rfl

theorem untilNul_cStr (s : Str) : untilNul (cStr s) = some (cstr s) := by
  induction s with
  | nil => rfl
  | cons c s ih =>
      rw [cStr, List.cons_append, List.map_cons, untilNul, cstr, List.takeWhile_cons]
      split
      · next hc => simp [hc]
      · next hc =>
        rw [← cStr, ih]
        simp [cstr, hc]

/-- `execve` reads the strings of the array. -/
theorem readArgv_run (strings : List Str) (hcells : ∀ (j : Nat) (s : Str), strings[j]? = some s →
      cells h (p + j) = some (cStr s)) :
    (readArgv ((List.range' p strings.length).map (fun q => .pointer (some q)) ++
        [.pointer none])).run h =
      some (strings.map (fun s => some (cstr s)) ++ [none], h) := by
  induction strings generalizing p with
  | nil => rfl
  | cons s strings ih =>
      have hread : (readString p).run h = some (cstr s, h) :=
        access_read (hcells 0 s rfl) (by rw [untilNul_cStr]; rfl)
      have hih := ih (p := p + 1) (by
        intro j t ht
        rw [Nat.add_right_comm]
        exact hcells (j + 1) t ht)
      rw [List.length_cons, List.range'_succ, List.map_cons, List.cons_append, readArgv,
        run_bind hread, run_bind hih]
      rfl

theorem readArgv_built (h : Heap Cell) (strings : List Str) :
    (readArgv (entries h.length strings.length 1)).run (built h strings strings.length 1) =
      some (strings.map (fun s => some (cstr s)) ++ [none], built h strings strings.length 1) :=
  readArgv_run strings fun _ _ hs => cells_built hs

/-- The first allocation that fails. -/
theorem exists_first (h : ¬ ∀ i < n, alloc i = true) :
    ∃ i < n, alloc i = false ∧ ∀ j < i, alloc j = true := by
  have hex : ∃ i, i < n ∧ alloc i = false := by simpa using h
  obtain ⟨hlt, hfails⟩ := Nat.find_spec hex
  refine ⟨Nat.find hex, hlt, hfails, fun j hj => ?_⟩
  have hj' := Nat.find_min hex hj
  simpa [hj.trans hlt] using hj'

/-- **The child does the same as without the memory**: `startChild` always has a result, and it is
that of the function that knows of strings only. -/
theorem startChild_run (chdirOk : Bool) (alloc : Nat → Bool) (task : Task) (h : Heap Cell) :
    ∃ h', (startChild chdirOk alloc task).run h =
      some (SimpleTaskQueue.startChild chdirOk alloc task, h') := by
  cases chdirOk with
  | false => exact ⟨h, rfl⟩
  | true =>
      rw [startChild, SimpleTaskQueue.startChild]
      simp only [Bool.not_true, Bool.false_eq_true, if_false]
      by_cases halloc : ∀ i < task.args.length + 2, alloc i = true
      · have harray : (access h.length fun cs => some (cs, cs)).run
            (built h (task.execName :: task.args) (task.args.length + 1) 1) = some (_, _) :=
          access_read (cells_array ..) rfl
        have hargv := buildChildArgv_eq_some_iff.mpr ⟨halloc, rfl⟩
        rw [hargv, run_bind (buildChildArgv_ok halloc)]
        simp only
        rw [run_bind harray]
        exact ⟨_, run_bind (readArgv_built h (task.execName :: task.args))⟩
      · obtain ⟨i, hi, hfails, hok⟩ := exists_first halloc
        obtain ⟨h', hrun, -⟩ := buildChildArgv_fails hi hfails hok
        have hnone : SimpleTaskQueue.buildChildArgv alloc task = none :=
          Option.eq_none_iff_forall_ne_some.mpr fun _ hargv =>
            halloc (buildChildArgv_eq_some_iff.mp hargv).1
        rw [hnone, run_bind hrun]
        exact ⟨h', rfl⟩

end LinuxProc

end SimpleTaskQueue
