/-
AntzKV.Server.ThreadPoolTheorems — the workers take what was submitted, in
order, and leave nothing behind.

`Sound tp c` is the invariant of the pool: `head` leads through the jobs
`c`, `tail` is the last of them, and a job a worker is on the way with is
none of them and nobody else's. Each locked section has one lemma
(`Sound.tpSubmit`, `Sound.dequeue`, `Sound.handle`) that says what becomes
of `c`; `Books` adds what the logs have to do with it, and what it means
that a worker has left.
-/
import AntzKV.Server.ThreadPool

namespace AntzKV

namespace ThreadPool

/-! ## The queue in memory -/

/-- The jobs that wait, with their addresses and descriptors. -/
structure Sound (tp : ThreadPool) (c : List (Nat × Int)) : Prop where
  list : tp.jobs.Leads (·.next) (·.fd) tp.head c
  nodup : (c.map Prod.fst).Nodup
  tail : tp.tail = (c.map Prod.fst).getLast?
  held : ∀ w j, tp.workers w = .handling j → j ∉ c.map Prod.fst ∧ ∃ x, tp.jobs.get j = some x
  apart : ∀ w w' j, tp.workers w = .handling j → tp.workers w' = .handling j → w = w'

variable {tp : ThreadPool} {c : List (Nat × Int)} {w w' : Fin threadPoolSize} {j : Nat}

theorem sound_tpInit : Sound tpInit [] where
  list := rfl
  nodup := List.nodup_nil
  tail := rfl
  held := nofun
  apart := nofun

@[simp] theorem workers_become (s : Worker) : (tp.become w s).workers w = s :=
  Function.update_self ..

theorem workers_become_of_ne (hne : w' ≠ w) (s : Worker) :
    (tp.become w s).workers w' = tp.workers w' := Function.update_of_ne hne ..

theorem tail_eq_none_iff (hs : Sound tp c) : tp.tail = none ↔ c = [] := by
  rw [hs.tail]
  simp

theorem head_eq_none_iff (hs : Sound tp c) : tp.head = none ↔ c = [] := by
  rw [hs.list.head]
  simp

/-- What a worker holds is read from the cell of its job. -/
theorem inHand_eq {tp' : ThreadPool} (hw : tp'.workers w = tp.workers w)
    (hjobs : ∀ j, tp.workers w = .handling j →
      (tp'.jobs.get j).map (·.fd) = (tp.jobs.get j).map (·.fd)) :
    tp'.inHand w = tp.inHand w := by
  simp only [inHand, hw]
  cases hstate : tp.workers w with
  | looping => rfl
  | handling j => exact hjobs j hstate
  | exited => rfl

/-! ## Submitting -/

section Submit

variable (fd : Int)

/-- The cells that were there, after a submission: one of them gets a
successor, if any. -/
theorem get_tpSubmit_of_ne (hj : j ≠ tp.jobs.fresh) (htail : tp.tail ≠ some j) :
    (tp.tpSubmit fd).jobs.get j = tp.jobs.get j := by
  rw [tpSubmit]
  cases ht : tp.tail with
  | none => exact Heap.get_alloc_of_ne hj _
  | some t =>
    have hjt : j ≠ t := by
      rintro rfl
      exact htail ht
    exact (Heap.get_modify_of_ne hjt _).trans (Heap.get_alloc_of_ne hj _)

theorem tpSubmit_of_tail_eq_none (ht : tp.tail = none) :
    tp.tpSubmit fd = { tp with
      jobs := tp.jobs.alloc ⟨fd, none⟩, head := some tp.jobs.fresh, tail := some tp.jobs.fresh } := by
  rw [tpSubmit, ht]

theorem tpSubmit_of_tail_eq_some {t : Nat} (ht : tp.tail = some t) :
    tp.tpSubmit fd = { tp with
      jobs := (tp.jobs.alloc ⟨fd, none⟩).modify t fun x => { x with next := some tp.jobs.fresh }
      tail := some tp.jobs.fresh } := by
  rw [tpSubmit, ht]

@[simp] theorem workers_tpSubmit : (tp.tpSubmit fd).workers = tp.workers := by
  cases ht : tp.tail with
  | none => rw [tpSubmit_of_tail_eq_none fd ht]
  | some t => rw [tpSubmit_of_tail_eq_some fd ht]

@[simp] theorem stop_tpSubmit : (tp.tpSubmit fd).stop = tp.stop := by
  cases ht : tp.tail with
  | none => rw [tpSubmit_of_tail_eq_none fd ht]
  | some t => rw [tpSubmit_of_tail_eq_some fd ht]

theorem tail_tpSubmit : (tp.tpSubmit fd).tail = some tp.jobs.fresh := by
  cases ht : tp.tail with
  | none => rw [tpSubmit_of_tail_eq_none fd ht]
  | some t => rw [tpSubmit_of_tail_eq_some fd ht]

/-- The new job at the end of the list. -/
theorem Sound.leads_tpSubmit (hs : Sound tp c) :
    (tp.tpSubmit fd).jobs.Leads (·.next) (·.fd) (tp.tpSubmit fd).head
      (c ++ [(tp.jobs.fresh, fd)]) := by
  rcases List.eq_nil_or_concat c with rfl | ⟨c, ⟨t, v⟩, rfl⟩
  · rw [tpSubmit_of_tail_eq_none fd ((tail_eq_none_iff hs).mpr rfl)]
    exact ⟨rfl, ⟨fd, none⟩, Heap.get_alloc_fresh _ _, rfl, rfl⟩
  · rw [List.concat_eq_append] at hs ⊢
    have ht : tp.tail = some t := by rw [hs.tail]; simp
    have hlt := hs.list.lt_fresh
    have hne : t ≠ tp.jobs.fresh := (hlt t (by simp)).ne
    obtain ⟨x, hx, hv⟩ := hs.list.get_last
    rw [tpSubmit_of_tail_eq_some fd ht, List.append_assoc]
    refine hs.list.append hs.nodup (fun a ha => ?_)
      ⟨{ x with next := some tp.jobs.fresh }, ?_, hv, rfl⟩ ⟨rfl, ⟨fd, none⟩, ?_, rfl, rfl⟩
    · have hat : a ≠ t := by
        rintro rfl
        have hnodup := hs.nodup
        rw [List.map_append] at hnodup
        exact List.disjoint_of_nodup_append hnodup ha (by simp)
      rw [Heap.get_modify_of_ne hat]
      exact Heap.get_alloc_of_ne (hlt a (by simp_all)).ne _
    · rw [Heap.get_modify_self, Heap.get_alloc_of_ne hne, hx]
      rfl
    · rw [Heap.get_modify_of_ne hne.symm]
      exact Heap.get_alloc_fresh _ _

theorem Sound.get_tpSubmit_of_held (hs : Sound tp c) (hw : tp.workers w = .handling j) :
    (tp.tpSubmit fd).jobs.get j = tp.jobs.get j := by
  obtain ⟨hnot, x, hx⟩ := hs.held w j hw
  refine get_tpSubmit_of_ne fd (Heap.lt_fresh_of_get hx).ne fun ht => hnot ?_
  rw [hs.tail] at ht
  exact List.mem_of_getLast? ht

theorem Sound.tpSubmit (hs : Sound tp c) :
    Sound (tp.tpSubmit fd) (c ++ [(tp.jobs.fresh, fd)]) where
  list := hs.leads_tpSubmit fd
  nodup := by
    have hfresh : tp.jobs.fresh ∉ c.map Prod.fst := fun hmem =>
      lt_irrefl _ (hs.list.lt_fresh _ hmem)
    rw [List.map_append, List.map_singleton, List.nodup_append]
    refine ⟨hs.nodup, List.nodup_singleton _, fun a ha b hb heq => hfresh ?_⟩
    have hlast : a = tp.jobs.fresh := heq.trans (List.mem_singleton.mp hb)
    exact hlast ▸ ha
  tail := by
    rw [tail_tpSubmit]
    simp
  held w j hw := by
    rw [workers_tpSubmit] at hw
    obtain ⟨hnot, x, hx⟩ := hs.held w j hw
    rw [hs.get_tpSubmit_of_held fd hw]
    refine ⟨?_, x, hx⟩
    have hne := (Heap.lt_fresh_of_get hx).ne
    simp_all
  apart := by
    rw [workers_tpSubmit]
    exact hs.apart

theorem Sound.inHand_tpSubmit (hs : Sound tp c) (w : Fin threadPoolSize) :
    (tp.tpSubmit fd).inHand w = tp.inHand w :=
  inHand_eq (by rw [workers_tpSubmit]) fun j hj => by rw [hs.get_tpSubmit_of_held fd hj]

end Submit

/-! ## Taking a job -/

/-- The pool after the worker has taken the head, which had this
successor. -/
def take (tp : ThreadPool) (w : Fin threadPoolSize) (j : Nat) (next : Option Nat) : ThreadPool :=
  { tp with head := next, tail := if next.isNone then none else tp.tail }.become w (.handling j)

theorem Sound.take {fd : Int} (hs : Sound tp ((j, fd) :: c)) (hw : tp.workers w = .looping) :
    ∃ x, tp.jobs.get j = some x ∧ x.fd = fd ∧ Sound (tp.take w j x.next) c := by
  obtain ⟨-, x, hx, hfd, hrest⟩ := hs.list
  have hnot : j ∉ c.map Prod.fst := (List.nodup_cons.mp hs.nodup).1
  refine ⟨x, hx, hfd, hrest, (List.nodup_cons.mp hs.nodup).2, ?_, ?_, ?_⟩
  · -- the last of the rest, when there is one
    have hhead : x.next = (c.map Prod.fst).head? := hrest.head
    show (if x.next.isNone then none else tp.tail) = _
    rw [hhead, hs.tail]
    cases c with
    | nil => rfl
    | cons y c => simp
  · intro w' j' hw'
    by_cases hww : w' = w
    · subst hww
      obtain rfl : j = j' := Worker.handling.inj ((workers_become _).symm.trans hw')
      exact ⟨hnot, x, hx⟩
    · obtain ⟨hj', hx'⟩ := hs.held w' j' ((workers_become_of_ne hww _).symm.trans hw')
      exact ⟨fun hmem => hj' (List.mem_cons_of_mem _ hmem), hx'⟩
  · intro w₁ w₂ j' h₁ h₂
    -- the job taken was nobody's
    have hfree : ∀ v, v ≠ w → (tp.take w j x.next).workers v = .handling j' →
        tp.workers v = .handling j' ∧ j' ≠ j := by
      intro v hv hj'
      have hold : tp.workers v = .handling j' := (workers_become_of_ne hv _).symm.trans hj'
      refine ⟨hold, ?_⟩
      rintro rfl
      exact (hs.held v j' hold).1 (by simp)
    have hown : (tp.take w j x.next).workers w = .handling j' → j' = j := fun h =>
      (Worker.handling.inj ((workers_become _).symm.trans h)).symm
    by_cases hw₁ : w₁ = w <;> by_cases hw₂ : w₂ = w
    · rw [hw₁, hw₂]
    · exact absurd (hown (hw₁ ▸ h₁)) (hfree w₂ hw₂ h₂).2
    · exact absurd (hown (hw₂ ▸ h₂)) (hfree w₁ hw₁ h₁).2
    · exact hs.apart w₁ w₂ j' (hfree w₁ hw₁ h₁).1 (hfree w₂ hw₂ h₂).1

/-- A worker that leaves. -/
theorem Sound.become (hs : Sound tp c) {s : Worker} (hs' : ∀ j, s ≠ .handling j) :
    Sound (tp.become w s) c where
  list := hs.list
  nodup := hs.nodup
  tail := hs.tail
  held w' j' hw' := by
    by_cases hww : w' = w
    · subst hww
      exact absurd ((workers_become s).symm.trans hw') (hs' j')
    · exact hs.held w' j' ((workers_become_of_ne hww s).symm.trans hw')
  apart w₁ w₂ j' h₁ h₂ := by
    have hne : ∀ v, (tp.become w s).workers v = .handling j' → v ≠ w := by
      rintro v hv rfl
      exact hs' j' ((workers_become s).symm.trans hv)
    exact hs.apart w₁ w₂ j' ((workers_become_of_ne (hne w₁ h₁) s).symm.trans h₁)
      ((workers_become_of_ne (hne w₂ h₂) s).symm.trans h₂)

/-- What the locked section does: nothing, leave, or take the first job. -/
theorem Sound.dequeue (hs : Sound tp c) (w : Fin threadPoolSize) :
    tp.dequeue w = (tp, none) ∨
    (tp.workers w = .looping ∧ tp.stop = true ∧ c = [] ∧
      tp.dequeue w = (tp.become w .exited, none)) ∨
    ∃ j fd c' next, c = (j, fd) :: c' ∧ tp.workers w = .looping ∧
      (∃ x, tp.jobs.get j = some x ∧ x.fd = fd) ∧
      tp.dequeue w = (tp.take w j next, some fd) ∧ Sound (tp.take w j next) c' := by
  rw [ThreadPool.dequeue]
  cases hw : tp.workers w with
  | handling j => exact .inl rfl
  | exited => exact .inl rfl
  | looping =>
    cases c with
    | nil =>
      rw [(head_eq_none_iff hs).mpr rfl]
      cases hstop : tp.stop with
      | false => exact .inl rfl
      | true => exact .inr (.inl ⟨rfl, rfl, rfl, rfl⟩)
    | cons y c =>
      obtain ⟨j, fd⟩ := y
      obtain ⟨x, hx, hfd, hs'⟩ := hs.take hw
      have hhead : tp.head = some j := hs.list.1
      refine .inr (.inr ⟨j, fd, c, x.next, rfl, rfl, ⟨x, hx, hfd⟩, ?_, hs'⟩)
      simp only [hhead, hx, hfd]
      rfl

/-! ## Handling a job -/

theorem handle_of_handling (hw : tp.workers w = .handling j) :
    tp.handle w = ({ tp with jobs := tp.jobs.free j }.become w .looping, tp.inHand w) := by
  rw [ThreadPool.handle, inHand, hw]

theorem handle_of_not_handling (hw : ∀ j, tp.workers w ≠ .handling j) :
    tp.handle w = (tp, none) := by
  rw [ThreadPool.handle]
  cases hstate : tp.workers w with
  | looping => rfl
  | handling j => exact absurd hstate (hw j)
  | exited => rfl

/-- The job of a worker can be freed once the worker is done with it. -/
theorem Sound.free (hs : Sound tp c) (hw : tp.workers w = .handling j) :
    Sound ({ tp with jobs := tp.jobs.free j }.become w .looping) c := by
  have hnot := (hs.held w j hw).1
  have hgone : Sound (tp.become w .looping) c := hs.become nofun
  refine ⟨hs.list.congr fun a ha => Heap.get_free_of_ne ?_, hs.nodup, hs.tail, ?_, hgone.apart⟩
  · rintro rfl
    exact hnot ha
  · intro w' j' hw'
    have hww : w' ≠ w := by
      rintro rfl
      exact Worker.noConfusion ((workers_become _).symm.trans hw')
    have hold : tp.workers w' = .handling j' := (workers_become_of_ne hww _).symm.trans hw'
    have hjj : j' ≠ j := by
      rintro rfl
      exact hww (hs.apart w' w j' hold hw)
    have hsame : (tp.jobs.free j).get j' = tp.jobs.get j' := Heap.get_free_of_ne hjj
    obtain ⟨hj', x, hx⟩ := hs.held w' j' hold
    exact ⟨hj', x, hsame.trans hx⟩

/-! ## The logs -/

theorem submitted_concat (as : List Action) (a : Action) :
    submitted (as ++ [a]) = submitted as ++ a.submitted?.toList := by
  rw [submitted, submitted, List.filterMap_append]
  cases a <;> rfl

theorem submittedBefore_isPrefix_submitted (as : List Action) : submittedBefore as <+: submitted as :=
  (List.takeWhile_prefix _).filterMap _

/-- After the shutdown nothing counts any more. -/
theorem submittedBefore_append {as : List Action} (h : .shutdown ∈ as) (bs : List Action) :
    submittedBefore (as ++ bs) = submittedBefore as := by
  rw [submittedBefore, submittedBefore, List.takeWhile_append, if_neg]
  intro hlen
  have hall := (List.takeWhile_prefix (fun a : Action => decide (a ≠ .shutdown))).eq_of_length hlen
  simpa using List.takeWhile_eq_self_iff.mp hall .shutdown h

theorem ofWorker_append (w : Fin threadPoolSize) (l l' : List (Fin threadPoolSize × Int)) :
    ofWorker w (l ++ l') = ofWorker w l ++ ofWorker w l' := by
  rw [ofWorker, List.filter_append, List.map_append]
  rfl

theorem ofWorker_self (w : Fin threadPoolSize) (o : Option Int) :
    ofWorker w (o.toList.map (w, ·)) = o.toList := by
  cases o with
  | none => rfl
  | some fd => simp [ofWorker]

theorem ofWorker_of_ne (hne : w' ≠ w) (o : Option Int) :
    ofWorker w' (o.toList.map (w, ·)) = [] := by
  cases o with
  | none => rfl
  | some fd => simp [ofWorker, hne.symm]

/-- A run, with the jobs that wait at its end. -/
structure Books (as : List Action) (s : Trace) (c : List (Nat × Int)) : Prop where
  sound : Sound s.pool c
  inOrder : s.taken.map Prod.snd ++ c.map Prod.snd = submitted as
  handled : ∀ w, ofWorker w s.taken = ofWorker w s.handled ++ (s.pool.inHand w).toList
  stop : s.pool.stop = true ↔ .shutdown ∈ as
  exited : ∀ w, s.pool.workers w = .exited →
    .shutdown ∈ as ∧ submittedBefore as <+: s.taken.map Prod.snd

variable {as : List Action} {s : Trace}

/-- Whoever has left has left for good reason, whatever comes after. -/
theorem Books.exited_append (hb : Books as s c) (hw : s.pool.workers w = .exited)
    (bs : List Action) {taken : List (Fin threadPoolSize × Int)}
    (hpre : s.taken.map Prod.snd <+: taken.map Prod.snd) :
    .shutdown ∈ as ++ bs ∧ submittedBefore (as ++ bs) <+: taken.map Prod.snd := by
  obtain ⟨hmem, hbefore⟩ := hb.exited w hw
  rw [submittedBefore_append hmem]
  exact ⟨List.mem_append_left _ hmem, hbefore.trans hpre⟩

theorem Books.submit (hb : Books as s c) (fd : Int) :
    Books (as ++ [.submit fd]) (step s (.submit fd)) (c ++ [(s.pool.jobs.fresh, fd)]) where
  sound := hb.sound.tpSubmit fd
  inOrder := by
    rw [submitted_concat, List.map_append, ← List.append_assoc]
    exact congrArg (· ++ [fd]) hb.inOrder
  handled w := by
    rw [step, hb.sound.inHand_tpSubmit fd w]
    exact hb.handled w
  stop := by
    rw [step, stop_tpSubmit, hb.stop]
    simp
  exited w hw := by
    rw [step, workers_tpSubmit] at hw
    exact hb.exited_append hw _ (List.prefix_refl _)

theorem Books.shutdown (hb : Books as s c) :
    Books (as ++ [.shutdown]) (step s .shutdown) c where
  sound := ⟨hb.sound.list, hb.sound.nodup, hb.sound.tail, hb.sound.held, hb.sound.apart⟩
  inOrder := by
    rw [submitted_concat]
    exact hb.inOrder.trans (List.append_nil _).symm
  handled := hb.handled
  stop := by simp [step, tpShutdown]
  exited w hw := hb.exited_append hw _ (List.prefix_refl _)

/-- A step that takes no job and hands none over. -/
theorem Books.idle (hb : Books as s c) {a : Action} (ha : a.submitted? = none)
    (hs : a ≠ .shutdown) : Books (as ++ [a]) s c where
  sound := hb.sound
  inOrder := by
    rw [submitted_concat, ha]
    simpa using hb.inOrder
  handled := hb.handled
  stop := by
    rw [hb.stop]
    simp [hs.symm]
  exited w hw := hb.exited_append hw _ (List.prefix_refl _)

/-- What the others hold when one worker moves on. -/
theorem inHand_become_of_ne (hne : w' ≠ w) (s : Worker) : (tp.become w s).inHand w' = tp.inHand w' :=
  inHand_eq (workers_become_of_ne hne s) fun _ _ => rfl

theorem Books.exit (hb : Books as s []) (hw : s.pool.workers w = .looping)
    (hstop : s.pool.stop = true) :
    Books (as ++ [.dequeue w]) { s with pool := s.pool.become w .exited } [] where
  sound := hb.sound.become nofun
  inOrder := (hb.idle (a := .dequeue w) rfl nofun).inOrder
  handled w' := by
    have hold := hb.handled w'
    by_cases hww : w' = w
    · subst hww
      have hnone : s.pool.inHand w' = none := by rw [inHand, hw]
      have hnone' : (s.pool.become w' .exited).inHand w' = none := by rw [inHand, workers_become]
      rw [hnone] at hold
      rw [hnone']
      exact hold
    · rw [inHand_become_of_ne hww]
      exact hold
  stop := (hb.idle (a := .dequeue w) rfl nofun).stop
  exited w' hw' := by
    have hmem : .shutdown ∈ as := hb.stop.mp hstop
    refine ⟨List.mem_append_left _ hmem, ?_⟩
    -- the queue is empty, so everything has been taken
    have hall : s.taken.map Prod.snd = submitted as := by simpa using hb.inOrder
    rw [submittedBefore_append hmem, hall]
    exact submittedBefore_isPrefix_submitted as

theorem Books.take {fd : Int} {next : Option Nat} (hb : Books as s ((j, fd) :: c))
    (hw : s.pool.workers w = .looping) (hx : ∃ x, s.pool.jobs.get j = some x ∧ x.fd = fd)
    (hs : Sound (s.pool.take w j next) c) :
    Books (as ++ [.dequeue w])
      { s with pool := s.pool.take w j next, taken := s.taken ++ [(w, fd)] } c where
  sound := hs
  inOrder := by
    have hold := (hb.idle (a := .dequeue w) rfl nofun).inOrder
    rw [← hold]
    simp
  handled w' := by
    have hold := hb.handled w'
    rw [ofWorker_append]
    by_cases hww : w' = w
    · subst hww
      obtain ⟨x, hx, hfd⟩ := hx
      have hnone : s.pool.inHand w' = none := by rw [inHand, hw]
      have hsome : (s.pool.take w' j next).inHand w' = some fd := by
        rw [inHand, ThreadPool.take, workers_become]
        exact (congrArg (Option.map (·.fd)) hx).trans (congrArg some hfd)
      rw [hold, hnone, hsome, List.append_assoc]
      exact congrArg _ (ofWorker_self w' (some fd))
    · have hsame : (s.pool.take w j next).inHand w' = s.pool.inHand w' :=
        inHand_become_of_ne hww _
      have hother : ofWorker w' [(w, fd)] = [] := ofWorker_of_ne hww (some fd)
      rw [hsame, hold, hother, List.append_nil]
  stop := (hb.idle (a := .dequeue w) rfl nofun).stop
  exited w' hw' := by
    have hww : w' ≠ w := by
      rintro rfl
      exact Worker.noConfusion ((workers_become _).symm.trans hw')
    refine hb.exited_append ((workers_become_of_ne hww _).symm.trans hw') _ ?_
    rw [List.map_append]
    exact List.prefix_append _ _

theorem Books.dequeue (hb : Books as s c) (w : Fin threadPoolSize) :
    ∃ c', Books (as ++ [.dequeue w]) (step s (.dequeue w)) c' := by
  rcases hb.sound.dequeue w with hno | ⟨hw, hstop, rfl, hexit⟩ |
    ⟨j, fd, c', next, rfl, hw, hx, htake, hs⟩
  · refine ⟨c, ?_⟩
    simp only [step, hno, Option.toList_none, List.map_nil, List.append_nil]
    exact hb.idle rfl nofun
  · refine ⟨[], ?_⟩
    simp only [step, hexit, Option.toList_none, List.map_nil, List.append_nil]
    exact hb.exit hw hstop
  · refine ⟨c', ?_⟩
    simp only [step, htake]
    exact hb.take hw hx hs

theorem Books.handle (hb : Books as s c) (w : Fin threadPoolSize) :
    Books (as ++ [.handle w]) (step s (.handle w)) c := by
  by_cases hw : ∃ j, s.pool.workers w = .handling j
  · obtain ⟨j, hw⟩ := hw
    simp only [step, handle_of_handling hw]
    have hidle := hb.idle (a := .handle w) rfl nofun
    refine ⟨hb.sound.free hw, hidle.inOrder, fun w' => ?_, hidle.stop, fun w' hw' => ?_⟩
    · have hold := hb.handled w'
      rw [ofWorker_append]
      by_cases hww : w' = w
      · subst hww
        have hnone : ({ s.pool with jobs := s.pool.jobs.free j }.become w' .looping).inHand w'
            = none := by
          rw [inHand, workers_become]
        rw [hold, hnone, ofWorker_self]
        simp
      · have hsame : ({ s.pool with jobs := s.pool.jobs.free j }.become w .looping).inHand w'
            = s.pool.inHand w' := by
          refine inHand_eq (workers_become_of_ne hww _) fun j' hj' => ?_
          have hjj : j' ≠ j := by
            rintro rfl
            exact hww (hb.sound.apart w' w j' hj' hw)
          exact congrArg _ (Heap.get_free_of_ne hjj)
        rw [hsame, hold, ofWorker_of_ne hww, List.append_nil]
    · have hww : w' ≠ w := by
        rintro rfl
        exact Worker.noConfusion ((workers_become _).symm.trans hw')
      exact hb.exited_append ((workers_become_of_ne hww _).symm.trans hw') _ (List.prefix_refl _)
  · have hnot : ∀ j, s.pool.workers w ≠ .handling j := fun j hj => hw ⟨j, hj⟩
    simp only [step, handle_of_not_handling hnot, Option.toList_none, List.map_nil,
      List.append_nil]
    exact hb.idle rfl nofun

theorem Books.step (hb : Books as s c) (a : Action) : ∃ c', Books (as ++ [a]) (step s a) c' := by
  cases a with
  | submit fd => exact ⟨_, hb.submit fd⟩
  | dequeue w => exact hb.dequeue w
  | handle w => exact ⟨c, hb.handle w⟩
  | shutdown => exact ⟨c, hb.shutdown⟩

theorem books_run (as : List Action) : ∃ c, Books as (run as) c := by
  induction as using List.reverseRecOn with
  | nil =>
    refine ⟨[], sound_tpInit, rfl, fun _ => rfl, ?_, nofun⟩
    simp [run, tpInit]
  | append_singleton as a ih =>
    obtain ⟨c, hb⟩ := ih
    rw [run, List.foldl_concat]
    exact hb.step a

/-- **The queue of connections**, after any interleaving: `head` leads
through the jobs `c`, each a cell of its own, to `tail` and NULL; what the
workers have taken, in the order they took it, followed by what waits is
what was submitted; each worker hands `handle_client_unlocked` what it has
taken and nothing else; and when all workers have left, everything
submitted before the shutdown has been taken. -/
theorem threadPool_exact (as : List Action) :
    ∃ c : List (Nat × Int),
      (run as).pool.jobs.Leads (·.next) (·.fd) (run as).pool.head c ∧
      (c.map Prod.fst).Nodup ∧
      (run as).pool.tail = (c.map Prod.fst).getLast? ∧
      ((run as).pool.head = none ↔ (run as).pool.tail = none) ∧
      (run as).taken.map Prod.snd ++ c.map Prod.snd = submitted as ∧
      (∀ w, ofWorker w (run as).taken
        = ofWorker w (run as).handled ++ ((run as).pool.inHand w).toList) ∧
      ((∀ w, (run as).pool.workers w = .exited) →
        submittedBefore as <+: (run as).taken.map Prod.snd) := by
  obtain ⟨c, hb⟩ := books_run as
  refine ⟨c, hb.sound.list, hb.sound.nodup, hb.sound.tail, ?_, hb.inOrder, hb.handled, ?_⟩
  · rw [head_eq_none_iff hb.sound, tail_eq_none_iff hb.sound]
  · intro hall
    exact (hb.exited 0 (hall 0)).2

/-- The queue runs empty and fills again, and the shutdown finds a job in it. -/
example :
    let s := run ([.submit 4, .dequeue 0, .dequeue 1, .submit 5, .shutdown, .handle 0]
      ++ (List.finRange threadPoolSize).map .dequeue ++ [.handle 0, .dequeue 0])
    s.taken = [(0, 4), (0, 5)] ∧ s.handled = s.taken ∧ ∀ w, s.pool.workers w = .exited := by decide

end ThreadPool

end AntzKV
