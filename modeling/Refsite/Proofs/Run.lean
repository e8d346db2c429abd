import Refsite.Run
namespace Refsite.Run

variable {α β ε : Type} {w w' : World}

/-- The second part of a run starts on the world that the first one leaves, unless that failed. -/
theorem start_bind (x : Run α) (f : α → Run β) (w : World) :
    (x >>= f).start w =
      match x.start w with
      | (.ok a, w') => (f a).start w'
      | (.error e, w') => (.error e, w') := by
  rw [start, start, ExceptT.run_bind, StateT.run_bind]
  cases x.run.run w with
  | mk result w' => cases result <;> rfl

theorem of_start_bind {x : Run α} {f : α → Run β} {b : β}
    (h : (x >>= f).start w = (.ok b, w')) :
    ∃ a v, x.start w = (.ok a, v) ∧ (f a).start v = (.ok b, w') := by
  rw [start_bind] at h
  cases hx : x.start w with
  | mk result v =>
    rw [hx] at h
    cases result with
    | error e => cases h
    | ok a => exact ⟨a, v, rfl, h⟩

theorem of_start_pure {a b : α} (h : (pure a : Run α).start w = (.ok b, w')) : a = b ∧ w = w' := by
  cases h
  exact ⟨rfl, rfl⟩

theorem of_start_ofExcept {failure : ε → Failure} {x : Except ε α} {a : α}
    (h : (ofExcept failure x).start w = (.ok a, w')) : x = .ok a ∧ w = w' := by
  cases x with
  | error e => cases h
  | ok b =>
    cases h
    exact ⟨rfl, rfl⟩

theorem of_start_disk {d : Disk} (h : disk.start w = (.ok d, w')) : w.disk = d ∧ w = w' := by
  cases h
  exact ⟨rfl, rfl⟩

theorem start_bind_ok {x : Run α} {f : α → Run β} {a : α} (h : x.start w = (.ok a, w')) :
    (x >>= f).start w = (f a).start w' := by
  rw [start_bind, h]

/-- A run ends where its first part fails. -/
theorem start_bind_error {x : Run α} {f : α → Run β} {e : Failure}
    (h : x.start w = (.error e, w')) : (x >>= f).start w = (.error e, w') := by
  rw [start_bind, h]

/-- What is caught goes on from the world that the failure left. -/
theorem start_tryCatch (x : Run α) (handle : Failure → Run α) (w : World) :
    (tryCatch x handle).start w =
      match x.start w with
      | (.ok a, w') => (.ok a, w')
      | (.error e, w') => (handle e).start w' := by
  rw [start, start, ExceptT.run_tryCatch, StateT.run_bind]
  cases x.run.run w with
  | mk result w' => cases result <;> rfl

theorem start_disk (w : World) : disk.start w = (.ok w.disk, w) := rfl

theorem start_ofExcept_fst (x : Except Failure α) (w : World) :
    ((ofExcept id x).start w).1 = x := by
  cases x <;> rfl

theorem start_look {p : Path} {entry : Option DiskEntry} (h : w.disk.look p = .ok entry) :
    (look p).start w = (.ok entry, w) := by
  rw [look, start_bind_ok (start_disk w), h]
  rfl

theorem start_isFile {p : Path} {entry : Option DiskEntry} (h : w.disk.look p = .ok entry) :
    (isFile p).start w = (.ok (entry.any DiskEntry.isFile), w) := by
  rw [isFile, start_bind_ok (start_look h)]
  rfl

theorem start_readText [Text.Codecs] {p : Path} {name : String} {encoding : Text.Encoding} {bytes : List UInt8}
    {text : List Char} (hname : name.toList.contains '\x00' = false)
    (hread : w.disk.read p = .ok bytes) (hencoding : Text.Encoding.ofName? name = some encoding)
    (htext : encoding.decode bytes = .ok text) :
    (readText p name).start w = (.ok (String.ofList (Text.unixLines text)), w) := by
  have hbytes : (ofExcept Failure.disk (w.disk.read p)).start w = (.ok bytes, w) := by
    rw [hread]
    rfl
  rw [readText, hname, if_neg Bool.false_ne_true]
  rw [start_bind_ok (start_disk w), start_bind_ok hbytes, hencoding]
  dsimp only
  rw [htext]
  rfl

theorem start_remark (r : Remark) (w : World) :
    (remark r).start w = (.ok (), { w with remarks := w.remarks ++ [r] }) := rfl

theorem start_remarkAll (rs : List Remark) (w : World) :
    (remarkAll rs).start w = (.ok (), { w with remarks := w.remarks ++ rs }) := rfl

end Refsite.Run
