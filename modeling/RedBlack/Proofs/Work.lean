import RedBlack.Command.Session
import RedBlack.Proofs.Faultless

/-! The work of insertions and deletions: how far the repair of the colors goes, which rotations it makes,
and what of all this is in the log. -/
namespace RedBlack
open Text
variable {K V : Type}

theorem Event.filterMap_line?_rotations (rs : List (Side × Handle)) :
    (Event.rotations rs).filterMap Event.line? =
      rs.map fun r => s!"TRACE {r.1.name} rotate at {r.2.text}" := by
  induction rs with
  | nil => rfl
  | cons r rs ih =>
    have hline : (Event.rotated r.1 r.2).line? = some s!"TRACE {r.1.name} rotate at {r.2.text}" := rfl
    exact (List.filterMap_cons_some hline).trans (congrArg _ ih)

namespace Tree

def Logs (t after : Tree K V) (rs : List (Side × Handle)) (line : String) : Prop :=
  after.logLines =
    t.logLines ++ ((rs.map fun r => s!"TRACE {r.1.name} rotate at {r.2.text}") ++ [line])

/-- An insertion that succeeds and a deletion of a live entry do some work, with a bound on it, and log the
rotations and themselves. To remove a key is to delete the entry that is found. An insertion that fails,
and a deletion or removal that finds nothing, change nothing, so that nothing is logged. -/
structure BoundedWork (t : Tree K V) : Prop where
  insert : ∀ k v z after, (Edit.insert k v).run t = .ok z after →
    ∃ u rs, t.InsertWork after k v z u rs ∧
      t.Logs after rs s!"TRACE inserted {z.text}, {after.size} entries"
  refused : ∀ k v e after, (Edit.insert k v).run t = .error e after → after = t
  delete : ∀ i e, t.entryAt? i = some e →
    ∃ after u rs, (Edit.delete i).run t = .ok (some e) after ∧ t.DeleteWork after i u rs ∧
      t.Logs after rs s!"TRACE deleted {i.text}, {after.size} entries left"
  stale : ∀ i, t.entryAt? i = none → (Edit.delete i).run t = .ok none t
  remove : ∀ k, (t.search k = .ok none ∧ (Edit.remove k).run t = .ok none t) ∨
    ∃ i e after, t.search k = .ok (some i) ∧ (Edit.delete i).run t = .ok (some e) after ∧
      (Edit.remove k).run t = .ok (some e.2) after

variable {t after : Tree K V} {k : K} {v : V} {i z : Handle} {e : K × V}
  {rs : List (Side × Handle)}

theorem logs_of_journal {event : Event} {line : String}
    (h : after.journal = t.journal ++ (Event.rotations rs ++ [event]).toArray)
    (hline : event.line? = some line) : t.Logs after rs line := by
  have hown : [event].filterMap Event.line? = [line] := by
    rw [List.filterMap_cons_some hline, List.filterMap_nil]
  rw [Logs, logLines, h, Array.toList_append, List.filterMap_append, List.filterMap_append, hown,
    Event.filterMap_line?_rotations]
  rfl

namespace Sound

theorem exists_insertWork (hs : t.Sound) (hrun : (Edit.insert k v).run t = .ok z after) :
    ∃ u rs, t.InsertWork after k v z u rs := by
  obtain ⟨ns, h⟩ := hs.holds
  have := hs.lawful
  cases hk : t.inorder.any (t.order.agrees k) with
  | true =>
    rw [h.run_insert_duplicate hk v] at hrun
    cases hrun
  | false =>
    by_cases hfull : t.stock.Exhausted t.width
    · rw [h.run_insert_exhausted hk hfull v] at hrun
      cases hrun
    · obtain ⟨sh', t', hgood, -, -, -, -, -, hwork⟩ := h.exists_insert hk hfull v
      rw [hgood] at hrun
      cases hrun
      exact hwork

theorem exists_deleteWork (hs : t.Sound) (hi : t.entryAt? i = some e) :
    ∃ after u rs, (Edit.delete i).run t = .ok (some e) after ∧ t.DeleteWork after i u rs := by
  obtain ⟨ns, h⟩ := hs.holds
  obtain ⟨ns', sh', t', hrun, -, -, -, -, -, u, rs, hwork⟩ :=
    h.exists_delete (h.entryAt?_eq_some_iff.1 hi)
  exact ⟨t', u, rs, hrun, hwork⟩

theorem boundedWork (hs : t.Sound) : t.BoundedWork := by
  refine ⟨fun k v z after hrun => ?_, fun k v e after hrun => ?_, fun i e hi => ?_,
    fun i => run_delete_stale, fun k => ?_⟩
  · obtain ⟨u, rs, hwork⟩ := hs.exists_insertWork hrun
    exact ⟨u, rs, hwork, logs_of_journal hwork.reports rfl⟩
  · obtain ⟨e, hfail, -⟩ | ⟨z, t', hgood, -⟩ := hs.insert k v
    · rw [hfail] at hrun
      cases hrun
      rfl
    · rw [hgood] at hrun
      cases hrun
  · obtain ⟨after, u, rs, hrun, hwork⟩ := hs.exists_deleteWork hi
    exact ⟨after, u, rs, hrun, hwork, logs_of_journal hwork.reports rfl⟩
  · rcases hs.search_cases k with hsearch | ⟨i, e, hsearch, hi⟩
    · exact .inl ⟨hsearch, run_remove_absent hsearch⟩
    · obtain ⟨after, -, -, hrun, -⟩ := hs.exists_deleteWork hi
      exact .inr ⟨i, e, after, hsearch, hrun, run_remove hsearch hrun⟩

end Sound
end Tree

/-- Whatever tree is reached, the work of a change is bounded by the height that the tree has, and is in
the log as it was done. -/
theorem work_bounded [Describe K] [Describe V] (order : KeyOrder K) [Std.TransCmp order.compare]
    (w : Width) (t : Tree K V) (h : t.Reached order w) : t.BoundedWork := h.sound.boundedWork

theorem work_bounded_natural :
    let t := ((Client.fresh .natural .halfWord : Client Int64 String).run
      [.insert 1 "a", .insert 2 "b"]).tree
    (∃ after u rs, (Edit.insert 3 "c").run t = .ok ⟨3⟩ after ∧ t.InsertWork after 3 "c" ⟨3⟩ u rs ∧
      t.Logs after rs s!"TRACE inserted {Handle.text ⟨3⟩}, {after.size} entries") ∧
      ((Edit.insert 3 "c").outcome t).2.journal.toList =
        t.journal.toList ++ [.rotated .left ⟨1⟩, .inserted ⟨3⟩ 3] ∧
      (∃ after u rs, (Edit.delete ⟨2⟩).run t = .ok (some (2, "b")) after ∧
        t.DeleteWork after ⟨2⟩ u rs ∧
        t.Logs after rs s!"TRACE deleted {Handle.text ⟨2⟩}, {after.size} entries left") ∧
      (Edit.delete ⟨3⟩).run t = .ok none t := by
  intro t
  have hreached : t.Reached .natural .halfWord := .calls .empty [.insert 1 "a", .insert 2 "b"]
  obtain ⟨after, hrun, -⟩ := hreached.sound.exists_insert (k := 3) (by decide +kernel)
    (by decide +kernel) "c"
  rw [show t.stock.pick = ⟨3⟩ by decide +kernel] at hrun
  have h := work_bounded .natural .halfWord t hreached
  obtain ⟨u, rs, hwork⟩ := h.insert 3 "c" ⟨3⟩ after hrun
  exact ⟨⟨after, u, rs, hrun, hwork⟩, by decide +kernel, h.delete ⟨2⟩ (2, "b") (by decide +kernel),
    h.stale ⟨3⟩ (by decide +kernel)⟩

end RedBlack
