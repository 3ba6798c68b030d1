import ExecutionFabric.Coordinator.Restart
import ExecutionFabric.Fabric.Reports
import ExecutionFabric.Persistence.Truncation

/-!
The lives of a fabric.

A coordinator process may end at any moment: what it did last is the last event of its
run. The next one is started on the file that is left, with an epoch of its own and
with other programs at the other ends of its connections. What it finds committed in
the file it did not see being computed. But it was: what is committed at the end of
a life came in a `COMPLETE` of this life or of one before, and if a worker sent that,
it had computed it for a ticket that it was given in that life (`lives_computed`).

A file that cannot be loaded is no exception. The life after it knows of no commits,
and has none that nobody made.
-/

namespace ExecutionFabric

open Collections StepMachine ExecutionEngine History

/-- A life of the coordinator: its epoch, what it is connected to, and what happens. -/
structure Life where
  epoch : CoordinatorEpoch
  world : World
  evs : List Process.Event

/-- The process, when it is started on a file. -/
def Life.start (l : Life) (file : Option ByteString) : Process := .start true file l.epoch

/-- The file that each life leaves is the one that the next is started on. What comes
out is the process that was started. -/
def lives : Machine (Option ByteString) Life Process :=
  ⟨fun file l => ((process.run (l.start file) l.evs).coordinator.file, l.start file)⟩

/-- What is assumed of a life: its programs are connected to it, and its engine is
never too large for a file. -/
structure Life.Sound (unset : UInt8) (file : Option ByteString) (l : Life) : Prop where
  wired : Process.Wired unset l.world (l.start file) l.evs
  bounded : ∀ before, before <+: l.evs →
    (process.run (l.start file) before).coordinator.engine.Bounded

/-- In one of the lives the digest came for the execution. -/
def Traced (unset : UInt8) (h : List (Life × Process)) (id : ExecutionId) (d : ResultDigest) :
    Prop :=
  ∃ x ∈ h, Process.Computed unset x.1.world x.2 x.1.evs id d

/-- The state can be read back, and what is committed in it can be traced. -/
structure ExecutionEngine.Traceable (unset : UInt8) (h : List (Life × Process))
    (s : ExecutionEngine) : Prop where
  shaped : s.Every (·.Shaped)
  keyed : s.Keyed
  traced : ∀ id d, s.ledger id = some d → Traced unset h id d

/-- There is no file, or what was saved in it can be traced. -/
def Filed (unset : UInt8) (h : List (Life × Process)) (file : Option ByteString) : Prop :=
  file = none ∨ ∃ (s : ExecutionEngine) (e : CoordinatorEpoch),
    file = some (save s.recordList e) ∧ s.Bounded ∧ s.Traceable unset h

variable {unset : UInt8} {h : List (Life × Process)} {file : Option ByteString}

theorem Traced.later {id : ExecutionId} {d : ResultDigest} (k : List (Life × Process))
    (htraced : Traced unset h id d) : Traced unset (h ++ k) id d := by
  obtain ⟨x, hx, hcomputed⟩ := htraced
  exact ⟨x, List.mem_append_left k hx, hcomputed⟩

namespace ExecutionEngine

variable {s t : ExecutionEngine}

theorem traceable_init (unset : UInt8) (h : List (Life × Process)) (e : CoordinatorEpoch) :
    (init e).Traceable unset h where
  shaped := fun _ _ => nofun
  keyed := fun _ _ => nofun
  traced := fun _ _ => nofun

theorem Traceable.later (hs : s.Traceable unset h) (k : List (Life × Process)) :
    s.Traceable unset (h ++ k) :=
  ⟨hs.shaped, hs.keyed, fun id d hd => (hs.traced id d hd).later k⟩

/-- All but the keys is a matter of the records. -/
theorem Traceable.of_find (hs : s.Traceable unset h) (hfind : ∀ id, t.find id = s.find id)
    (hkeyed : t.Keyed) : t.Traceable unset h where
  shaped := fun id r hr => hs.shaped id r (hfind id ▸ hr)
  keyed := hkeyed
  traced := fun id d hd => hs.traced id d (by rwa [ledger, hfind] at hd)

end ExecutionEngine

/-- An engine that is started on a file knows of no commit that cannot be traced. -/
theorem Filed.start (hfile : Filed unset h file) (l : Life) :
    (l.start file).coordinator.engine.Traceable unset h := by
  have hempty : (init l.epoch).Traceable unset h := traceable_init unset h l.epoch
  unfold Life.start Process.start Coordinator.construct
  dsimp only
  rw [if_pos rfl]
  split
  · exact hempty
  · rename_i recovered recEpoch hload
    have hrecovered : ((init l.epoch).replaceRecords recovered).Traceable unset h := by
      rcases hfile with rfl | ⟨s, e, rfl, hbounded, hs⟩
      · cases hload
      · obtain ⟨rfl, -⟩ := (hbounded.storable hs.shaped hs.keyed).loaded hload
        exact hs.of_find (find_replaceRecords hs.keyed _) (hs.keyed.replaceRecords _)
    split
    · refine hrecovered.of_find (find_adoptEpoch _ recEpoch) fun id r hr => ?_
      obtain ⟨hid, hepoch⟩ := hrecovered.keyed id r (find_adoptEpoch _ recEpoch id ▸ hr)
      exact ⟨hid, hepoch.trans ((le_max_left _ _).trans (adoptEpoch_epoch _ recEpoch).ge)⟩
    · exact hrecovered

/-- At every moment of a life, what is committed can be traced. -/
theorem Filed.during (hfile : Filed unset h file) {l : Life} (hl : l.Sound unset file)
    {before : List Process.Event} (hbefore : before <+: l.evs) :
    (process.run (l.start file) before).coordinator.engine.Traceable unset
      (h ++ [(l, l.start file)]) := by
  have hstart := hfile.start l
  have run := Process.calls_run (l.start file) before
  refine ⟨?_, ?_, fun id d hd => ?_⟩
  · refine run.preserves (P := fun s => s.Every (·.Shaped)) (fun s c _ hs => ?_) hstart.shaped
    exact hs.next shaped_newRecord fun effect => effect.shaped
  · exact run.preserves (fun _ c _ hs => hs.next c) hstart.keyed
  · have hwired : Process.Wired unset l.world (.start true file l.epoch) before :=
      hl.wired.of_prefix hbefore
    rcases Process.computed_of_ledger hwired hd with hd | hcomputed
    · exact (hstart.traced id d hd).later _
    · exact ⟨_, List.mem_append_right h (List.mem_singleton_self _), hcomputed.mono hbefore⟩

namespace Process

/-- The file is the one from the start, or was saved during the run. -/
theorem file_run (p : Process) (evs : List Event) :
    (process.run p evs).coordinator.file = p.coordinator.file ∨
      ∃ before, before <+: evs ∧ (process.run p before).coordinator.Saved ∧
        (process.run p evs).coordinator.file = (process.run p before).coordinator.file := by
  induction evs using List.reverseRecOn with
  | nil => exact .inl rfl
  | append_singleton evs ev ih =>
      have hmoves := (process.run p evs).step_moves ev
      rw [Machine.run_snoc]
      have hsame : (process.next (process.run p evs) ev).coordinator.file =
          (process.run p evs).coordinator.file ∨
            (process.next (process.run p evs) ev).coordinator.Saved := by
        show ((process.run p evs).step ev).1.coordinator.file = _ ∨
          ((process.run p evs).step ev).1.coordinator.Saved
        generalize (process.run p evs).step ev = y at hmoves
        cases hmoves with
        | @decided i rest amb order hqueue htaken =>
            exact (Turn.handles (G := Always) (fun _ _ _ => trivial)
              (process.run p evs).coordinator i.conn i.type i.payload amb order
              fun _ _ _ => trivial).file
        | _ => exact .inl rfl
      rcases hsame with hsame | hsaved
      · rw [hsame]
        refine ih.imp_right ?_
        rintro ⟨before, hbefore, hsaved, hfile⟩
        exact ⟨before, hbefore.trans (List.prefix_append _ _), hsaved, hfile⟩
      · refine .inr ⟨evs ++ [ev], List.prefix_rfl, ?_⟩
        rw [Machine.run_snoc]
        exact ⟨hsaved, rfl⟩

end Process

/-- What a life leaves can be traced. -/
theorem Filed.next (hfile : Filed unset h file) {l : Life} (hl : l.Sound unset file) :
    Filed unset (h ++ [(l, lives.out file l)]) (lives.next file l) := by
  rcases Process.file_run (l.start file) l.evs with hsame | ⟨before, hbefore, hsaved, hsame⟩
  · have hkept : lives.next file l = file :=
      hsame.trans (Coordinator.construct_file true file l.epoch)
    rw [hkept]
    refine hfile.imp_right ?_
    rintro ⟨s, e, hs, hbounded, htraceable⟩
    exact ⟨s, e, hs, hbounded, htraceable.later _⟩
  · exact .inr ⟨_, _, hsame.trans hsaved, hl.bounded before hbefore, hfile.during hl hbefore⟩

theorem filed_of_runs (run : Runs lives (Life.Sound unset) none h file) : Filed unset h file := by
  induction run with
  | refl => exact .inl rfl
  | snoc run l hl ih => exact ih.next hl

namespace Sample

/-- The worker does its work, and the coordinator ends. -/
def laborious : Life := ⟨⟨1⟩, factory, labouring⟩

/-- Nobody is there, and nothing happens. -/
def idle : Life := ⟨⟨2⟩, fun _ => none, []⟩

set_option maxRecDepth 20000 in
theorem sound_laborious : laborious.Sound 0 none where
  wired := wired_factory (by decide +kernel)
  bounded := by
    intro before hbefore
    have hall : ∀ before ∈ labouring.inits,
        (process.run (laborious.start none) before).coordinator.engine.Bounded := by
      decide +kernel
    exact hall before ((List.mem_inits _ _).2 hbefore)

set_option maxRecDepth 20000 in
theorem sound_idle : idle.Sound 0 (lives.next none laborious) where
  wired := by
    intro before hbefore c peer hpeer
    cases hpeer
  bounded := by
    intro before hbefore
    obtain rfl := List.prefix_nil.1 hbefore
    decide +kernel

end Sample

end ExecutionFabric
