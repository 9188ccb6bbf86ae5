import TickBatch.Ring.Machine

/-!
# What one atomic step can do

`Next` lists the outcomes of an atomic step, one for each branch of `push`, `evictOldest`, `pop`,
`popMarshal` and `QueueDepth`, with the condition under which it is taken. `next_cases` says that
there are no others, and the invariants of the later modules are case analyses over this list. The
lemmas after it collect what the list says about the two cursors and about returning.
-/

namespace TickBatch.Ring

variable {T : Type} [Serializable T]

/-- The outcomes of an atomic step of a thread. -/
inductive Next (r : Ringbuf T) : Local T → Ringbuf T → Local T → List (Event T) → Prop where
  | loadTail (item policy tries) :
      Next r (.pushLoadTail item policy tries) r (.pushLoadSeq item policy tries r.tail) []
  | tailReady (item policy tries pos) : r.pushDiff pos = 0 →
      Next r (.pushLoadSeq item policy tries pos) r (.pushCas item policy tries pos) []
  | giveUp (item policy tries pos) : r.pushDiff pos < 0 →
      policy = .dropNewest ∨ maxEvictRetries ≤ tries →
      Next r (.pushLoadSeq item policy tries pos) r .idle [.ret (.push false)]
  | makeRoom (item policy tries pos) : r.pushDiff pos < 0 → policy ≠ .dropNewest →
      tries < maxEvictRetries →
      Next r (.pushLoadSeq item policy tries pos) r (.evictLoadHead item policy (tries + 1)) []
  | tailMoved (item policy tries pos) : r.pushDiff pos ≠ 0 → ¬r.pushDiff pos < 0 →
      Next r (.pushLoadSeq item policy tries pos) r (.pushLoadTail item policy tries) []
  | claim (item policy tries pos) : r.tail = pos →
      Next r (.pushCas item policy tries pos) { r with tail := pos + 1 } (.pushWrite item pos)
        [.claim pos item]
  | tailLost (item policy tries pos) : r.tail ≠ pos →
      Next r (.pushCas item policy tries pos) r (.pushLoadTail item policy tries) []
  | write (item pos) :
      Next r (.pushWrite item pos) (r.storeData pos item) (.pushPublish item pos) []
  | publish (item pos) :
      Next r (.pushPublish item pos) (r.storeSeq pos (pos + 1)) .idle
        [.publish pos item, .ret (.push true)]
  | evictHead (item policy tries) :
      Next r (.evictLoadHead item policy tries) r (.evictLoadSeq item policy tries r.head) []
  | evictReady (item policy tries headPos) : r.seqs (r.slot headPos) = headPos + 1 →
      Next r (.evictLoadSeq item policy tries headPos) r (.evictCas item policy tries headPos) []
  | evictUnready (item policy tries headPos) : r.seqs (r.slot headPos) ≠ headPos + 1 →
      Next r (.evictLoadSeq item policy tries headPos) r (.pushLoadTail item policy tries) []
  | evict (item policy tries headPos) : r.head = headPos →
      Next r (.evictCas item policy tries headPos) { r with head := headPos + 1 }
        (.evictRecycle item policy tries headPos) [.evict headPos]
  | evictLost (item policy tries headPos) : r.head ≠ headPos →
      Next r (.evictCas item policy tries headPos) r (.pushLoadTail item policy tries) []
  | evictRecycle (item policy tries headPos) :
      Next r (.evictRecycle item policy tries headPos)
        (r.storeSeq headPos (headPos + r.mask + 1)) (.evictCount item policy tries)
        [.recycle headPos none]
  | evictCount (item policy tries) :
      Next r (.evictCount item policy tries) { r with evicted := r.evicted + 1 }
        (.pushLoadTail item policy tries) []
  | loadHead (taker) : Next r (.takeLoadHead taker) r (.takeLoadSeq taker r.head) []
  | headReady (taker pos) : r.popDiff pos = 0 →
      Next r (.takeLoadSeq taker pos) r (.takeCas taker pos) []
  | empty (taker pos) : r.popDiff pos < 0 →
      Next r (.takeLoadSeq taker pos) r .idle [.ret taker.empty]
  | headMoved (taker pos) : r.popDiff pos ≠ 0 → ¬r.popDiff pos < 0 →
      Next r (.takeLoadSeq taker pos) r (.takeLoadHead taker) []
  | take (taker pos) : r.head = pos →
      Next r (.takeCas taker pos) { r with head := pos + 1 } (.takeRead taker pos) [.take pos]
  | headLost (taker pos) : r.head ≠ pos →
      Next r (.takeCas taker pos) r (.takeLoadHead taker) []
  | readPop (pos) :
      Next r (.takeRead .pop pos) r
        (.takeRecycle pos (r.data (r.slot pos)) (.pop (some (r.data (r.slot pos))))) []
  | readMarshal (buf pos) :
      Next r (.takeRead (.popMarshal buf) pos) r (.marshal buf pos (r.data (r.slot pos))) []
  | marshal (buf pos item) :
      Next r (.marshal buf pos item) r
        (.takeRecycle pos item (.popMarshal (Serializable.marshal item buf).1 true
          (Serializable.marshal item buf).2)) [.marshal pos item]
  | recycle (pos item result) :
      Next r (.takeRecycle pos item result) (r.storeSeq pos (pos + r.mask + 1)) .idle
        [.recycle pos (some item), .ret result]
  | depthTail : Next r .depthLoadTail r (.depthLoadHead r.tail) []
  | depthHead (tail) :
      Next r (.depthLoadHead tail) r .idle [.ret (.queueDepth (queueDepth tail r.head))]

variable {r r' : Ringbuf T} {pc pc' : Local T} {events : List (Event T)}

/-- Every step is one of the list. -/
theorem next_cases (hnext : Local.next r pc = some (r', pc', events)) :
    Next r pc r' pc' events := by
  cases pc with
  | idle => simp [Local.next] at hnext
  | pushLoadSeq item policy tries pos =>
      simp only [Local.next] at hnext
      split at hnext
      · rename_i hzero
        cases hnext
        exact .tailReady _ _ _ _ hzero
      rename_i hzero
      split at hnext
      · rename_i hneg
        unfold Local.full at hnext
        split at hnext
        · rename_i hpolicy
          cases hnext
          exact .giveUp _ _ _ _ hneg (Or.inl hpolicy)
        rename_i hpolicy
        split at hnext
        · rename_i htries
          cases hnext
          exact .giveUp _ _ _ _ hneg (Or.inr (Nat.le_of_lt_succ htries))
        · rename_i htries
          cases hnext
          exact .makeRoom _ _ _ _ hneg hpolicy (Nat.lt_of_succ_le (by omega))
      · rename_i hneg
        cases hnext
        exact .tailMoved _ _ _ _ hzero hneg
  | pushCas item policy tries pos =>
      simp only [Local.next] at hnext
      split at hnext
      · rename_i htail
        cases hnext
        exact .claim _ policy tries _ htail
      · rename_i htail
        cases hnext
        exact .tailLost _ _ _ _ htail
  | evictLoadSeq item policy tries headPos =>
      simp only [Local.next] at hnext
      split at hnext
      · rename_i hseq
        cases hnext
        exact .evictReady _ _ _ _ hseq
      · rename_i hseq
        cases hnext
        exact .evictUnready _ _ _ _ hseq
  | evictCas item policy tries headPos =>
      simp only [Local.next] at hnext
      split at hnext
      · rename_i hhead
        cases hnext
        exact .evict _ _ _ _ hhead
      · rename_i hhead
        cases hnext
        exact .evictLost _ _ _ _ hhead
  | takeLoadSeq taker pos =>
      simp only [Local.next] at hnext
      split at hnext
      · rename_i hzero
        cases hnext
        exact .headReady _ _ hzero
      rename_i hzero
      split at hnext
      · rename_i hneg
        cases hnext
        exact .empty _ _ hneg
      · rename_i hneg
        cases hnext
        exact .headMoved _ _ hzero hneg
  | takeCas taker pos =>
      simp only [Local.next] at hnext
      split at hnext
      · rename_i hhead
        cases hnext
        exact .take _ _ hhead
      · rename_i hhead
        cases hnext
        exact .headLost _ _ hhead
  | takeRead taker pos =>
      cases taker with
      | pop =>
          simp only [Local.next] at hnext
          cases hnext
          exact .readPop _
      | popMarshal buf =>
          simp only [Local.next] at hnext
          cases hnext
          exact .readMarshal _ _
  | _ =>
      simp only [Local.next] at hnext
      cases hnext
      constructor

/-- No step changes the mask. -/
theorem Next.mask (h : Next r pc r' pc' events) : r'.mask = r.mask := by
  cases h <;> rfl

/-- The tail stays or moves to the next position. -/
theorem Next.tail (h : Next r pc r' pc' events) : r'.tail = r.tail ∨ r'.tail = r.tail + 1 := by
  cases h with
  | claim item policy tries pos htail => exact Or.inr (by rw [htail])
  | _ => exact Or.inl rfl

/-- The head stays or moves to the next position. -/
theorem Next.head (h : Next r pc r' pc' events) : r'.head = r.head ∨ r'.head = r.head + 1 := by
  cases h with
  | evict item policy tries headPos hhead => exact Or.inr (by rw [hhead])
  | take taker pos hhead => exact Or.inr (by rw [hhead])
  | _ => exact Or.inl rfl

/-- A thread that becomes idle has returned. -/
theorem Next.returns (h : Next r pc r' .idle events) : ∃ result, .ret result ∈ events := by
  cases h with
  | giveUp item policy tries pos _ _ => exact ⟨_, List.mem_singleton_self _⟩
  | publish item pos => exact ⟨.push true, by simp⟩
  | empty taker pos _ => exact ⟨_, List.mem_singleton_self _⟩
  | recycle pos item result => exact ⟨result, by simp⟩
  | depthHead tail => exact ⟨_, List.mem_singleton_self _⟩

end TickBatch.Ring
