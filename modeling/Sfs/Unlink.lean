import Sfs.Removal

namespace Sfs

variable {L : Set Nat} {s s' : State} {p p' : Pool Bytes} {fl : List Nat} {k m r j : Nat} {name : List UInt8}
  {tail : Bytes}

/-- The part of `sfs_unlink` that works on file `k` in directory `m`. -/
def unlinkNode (s : State) (k m : Nat) (filename : Bytes) : State :=
  dnodeRemove (freeInodePush (fnodeListingSet (fstreamFree s k (0 : Nat)) k (0 : Nat)) k) m filename

/-- The part of `sfs_rmdir` that works on directory `k` in directory `m`. -/
def rmdirNode (s : State) (k m : Nat) (filename : Bytes) : State :=
  dnodeRemove (dnodeListingSet s k (0 : Nat)) m filename

theorem unlinkNode_spec (before : Good s L fl) (liveM : m ∈ L) (live : k ∈ L) (ok : DirOk s.stores.pool m)
    (file : isdir (s.stores.pool.cell k) = 0) (within : r < size (s.stores.pool.cell m))
    (hit : entName s.stores.pool m r = name) (clean : 0 ∉ name) (short : name.length ≤ 13)
    (run : unlinkNode s k m (Bytes.cstr name tail) = s') :
    Removal L (L \ {k}) s s' k m r ((blocksOf s.stores.pool k).reverse ++ fl) ∧
      (∃ p₁ f buf, Repaged L s.stores.pool p₁ k 0 f ∧
        Repaged (L \ {k}) (p₁.give k) s'.stores.pool m (size (s.stores.pool.cell m) - 1) buf) ∧
      nlink (s'.stores.pool.cell m) = ushort ((nlink (s.stores.pool.cell m) : Int) - 1) ∧ s'.ub = s.ub := by
  have range := before.owned.node_range live
  have ne : m ≠ k := by
    rintro rfl
    exact ok.dir file
  rw [unlinkNode] at run
  generalize firstIs : fstreamFree s k (0 : Nat) = s₁ at run
  obtain ⟨f, _, _, atF, _, cut⟩ := fstreamFree_spec before.owned live file before.list
    (by rw [List.drop_zero]; exact before.blocks.nodup k live file)
    (by rw [List.drop_zero]; exact before.blocks.area k live file) (Nat.zero_le 8344) firstIs
    (.of_le (Nat.zero_le _))
  generalize secondIs : fnodeListingSet s₁ k (0 : Nat) = s₂ at run
  obtain ⟨cut₂, _⟩ := cut.again live atF file (Nat.zero_le 8344) secondIs
  obtain ⟨_, step⟩ := cut₂.fileStep file (Nat.zero_le 8344) (fun i hi => absurd hi (Nat.not_lt_zero i))
    (Nat.zero_le _)
  have good₂ := step.good before live file (cut₂.errno.trans before.errno)
  rw [List.drop_zero] at good₂
  have same₂ : ∀ j ∈ L, j ≠ k → Same s.stores.pool s₂.stores.pool j := fun j live' ne' =>
    cut₂.repaged.same before.owned live live' ne'
  have quiet : Quiet s₂ (freeInodePush s₂ k) := quiet_freeInodePush range.1 (by omega)
  have stores₃ := stores_freeInodePush (s := s₂) range.1 (show k < 4096 by omega)
  generalize freeInodePush s₂ k = s₃ at *
  have pool₃ : s₃.stores.pool = s₂.stores.pool.give k := by rw [stores₃, Stores.setPool_pool]
  have same₃ : ∀ j, Same s₂.stores.pool s₃.stores.pool j := fun j c _ => by rw [pool₃, Pool.give_cell]
  have sameM := (same₂ m liveM ne).trans (same₃ m)
  have fitsM := before.owned.fits m liveM
  have agree := sameM.agree ok.dir fitsM
  have rows : size (s₃.stores.pool.cell m) = size (s.stores.pool.cell m) := by rw [sameM.cell_eq]
  have owned₃ : Owned (L \ {k}) s₃.stores.pool := by
    rw [pool₃]
    exact cut₂.repaged.owned.give live
  have mem : ∀ j ∈ L, j ≠ k → j ∈ L \ {k} := fun j live' ne' => ⟨live', ne'⟩
  have hit₃ : entName s₃.stores.pool m r = name := by
    rw [← hit]
    exact (agree.2 r within).1
  obtain ⟨⟨buf, reset⟩, dropped, links, ub⟩ := dnodeRemove_hit owned₃ (mem m liveM ne) (ok.congr sameM fitsM) clean short
    (rows ▸ within) hit₃ run
  rw [rows] at reset
  have sup : s'.stores.sup = s₂.stores.sup := by rw [reset.rest, Stores.setPool_sup, stores₃, Stores.setPool_sup]
  have data : s'.stores.data = s₂.stores.data := by
    rw [reset.rest, Stores.setPool_data, stores₃, Stores.setPool_data]
  have same : ∀ j ∈ L, j ≠ k → j ≠ m → Same s.stores.pool s'.stores.pool j := fun j live' ne' notM =>
    ((same₂ j live' ne').trans (same₃ j)).trans
      (reset.toRepaged.same owned₃ (mem m liveM ne) (mem j live' ne') notM)
  have dir : isdir (s'.stores.pool.cell m) = isdir (s.stores.pool.cell m) := by
    rw [reset.resized.isdir_eq, sameM.cell_eq]
  refine ⟨⟨Set.sdiff_subset, mem, same, fun member => absurd rfl member.2, dir, agree.dropped dropped, reset.owned,
    good₂.list.congr sup fun b _ => by rw [data], ?_, by rw [sup, good₂.count],
    reset.synced (quiet.synced good₂.synced (by rw [stores₃, Stores.setPool_sup])),
    by rw [reset.errno, quiet.errno_eq, good₂.errno],
    (cut₂.traced.trans quiet.calm.toTraced).trans reset.traced, fun i live' ne' file' b member => ?_⟩,
    ⟨s₂.stores.pool, f, buf, cut₂.repaged, ?_⟩, by rw [links, sameM.cell_eq], ub.trans (quiet.ub_eq.trans cut₂.ub)⟩
  · have blocks : FileBlocks (L \ {k}) s₂.stores.pool _ := good₂.blocks.mono Set.sdiff_subset
    refine blocks.congr good₂.list.nodup fun j member file' => Or.inl ?_
    have notM : j ≠ m := by
      rintro rfl
      rw [dir] at file'
      exact ok.dir file'
    have untouched := (same₃ j).trans
      (reset.toRepaged.same owned₃ (mem m liveM ne) member notM)
    rw [untouched.cell_eq] at file'
    exact ⟨member, file', untouched.blocksOf_eq file' (good₂.owned.fits j member.1)⟩
  · rw [data]
    exact (step.kept before live file live' file' ne').data b member
  · rw [← pool₃]
    exact reset.toRepaged

theorem rmdirNode_spec (before : Good s L fl) (liveM : m ∈ L) (live : k ∈ L) (ne : m ≠ k)
    (ok : DirOk s.stores.pool m) (dirK : isdir (s.stores.pool.cell k) ≠ 0)
    (within : r < size (s.stores.pool.cell m)) (hit : entName s.stores.pool m r = name) (clean : 0 ∉ name)
    (short : name.length ≤ 13) (run : rmdirNode s k m (Bytes.cstr name tail) = s') :
    Removal L L s s' k m r fl ∧ s'.stores.data = s.stores.data ∧
      (∃ p₁ f buf, Repaged L s.stores.pool p₁ k 0 f ∧
        Repaged L p₁ s'.stores.pool m (size (s.stores.pool.cell m) - 1) buf) ∧
      nlink (s'.stores.pool.cell m) = ushort ((nlink (s.stores.pool.cell m) : Int) - 1) ∧ s'.ub = s.ub := by
  rw [rmdirNode] at run
  generalize firstIs : dnodeListingSet s k (0 : Nat) = s₁ at run
  obtain ⟨first, calm, _⟩ := dnodeListingSet_spec before.owned live dirK (by omega) firstIs (.of_le (Nat.zero_le _))
  have same₁ : ∀ j ∈ L, j ≠ k → Same s.stores.pool s₁.stores.pool j := fun j live' ne' =>
    first.toRepaged.same before.owned live live' ne'
  have sameM := same₁ m liveM ne
  have fitsM := before.owned.fits m liveM
  have agree := sameM.agree ok.dir fitsM
  have rows : size (s₁.stores.pool.cell m) = size (s.stores.pool.cell m) := by rw [sameM.cell_eq]
  have hit₁ : entName s₁.stores.pool m r = name := by
    rw [← hit]
    exact (agree.2 r within).1
  obtain ⟨⟨buf, reset⟩, dropped, links, ub⟩ := dnodeRemove_hit first.owned liveM (ok.congr sameM fitsM) clean short
    (rows ▸ within) hit₁ run
  have sup : s'.stores.sup = s.stores.sup := by
    rw [reset.rest, Stores.setPool_sup, first.rest, Stores.setPool_sup]
  have data : s'.stores.data = s.stores.data := by
    rw [reset.rest, Stores.setPool_data, first.rest, Stores.setPool_data]
  have last : ∀ j ∈ L, j ≠ m → Same s₁.stores.pool s'.stores.pool j := fun j live' notM =>
    reset.toRepaged.same first.owned liveM live' notM
  have dir : isdir (s'.stores.pool.cell m) = isdir (s.stores.pool.cell m) := by
    rw [reset.resized.isdir_eq, sameM.cell_eq]
  have dirK' : isdir (s'.stores.pool.cell k) ≠ 0 := by
    rw [(last k live (Ne.symm ne)).cell_eq, first.resized.isdir_eq]
    exact dirK
  have same : ∀ j ∈ L, j ≠ k → j ≠ m → Same s.stores.pool s'.stores.pool j := fun j live' ne' notM =>
    (same₁ j live' ne').trans (last j live' notM)
  refine ⟨⟨subset_rfl, fun j live' _ => live', same, fun _ => ?_, dir, agree.dropped dropped, reset.owned,
    before.list.congr sup fun b _ => by rw [data], ?_, by rw [sup, before.count],
    reset.synced (first.synced before.synced), by rw [reset.errno, first.errno, before.errno],
    first.traced.trans reset.traced, fun i _ _ _ b _ => by rw [data]⟩, data,
    ⟨s₁.stores.pool, s.d, buf, first.toRepaged, by rw [← rows]; exact reset.toRepaged⟩,
    by rw [links, sameM.cell_eq], ub.trans calm.ub⟩
  · exact ⟨dirK', by rw [(last k live (Ne.symm ne)).cell_eq, first.resized.size]⟩
  · refine before.blocks.congr before.list.nodup fun j live' file' => Or.inl ?_
    have notM : j ≠ m := by
      rintro rfl
      rw [dir] at file'
      exact ok.dir file'
    have notK : j ≠ k := by
      rintro rfl
      exact dirK' file'
    have untouched := same j live' notK notM
    rw [untouched.cell_eq] at file'
    exact ⟨live', file', untouched.blocksOf_eq file' (before.owned.fits j live')⟩

end Sfs
