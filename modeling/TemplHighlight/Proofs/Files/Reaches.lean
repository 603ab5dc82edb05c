import TemplHighlight.Proofs.Files.Changes

/-!
# What a path reads while files change

Once the names of a path are known to lead to a location, what the path reads is a matter of that
location: what was written there can be read at the path, and it stays as long as the files only
grow elsewhere.
-/

namespace TemplHighlight.Disk

variable {disk after : Disk} {location : Location} {path : Path} {bytes : Bytes}
  {made written : Location → Prop}

/-- The names of a path lead to a location, the last one down to it. -/
def Reaches (disk : Disk) (path : Path) (location : Location) : Prop :=
  ∃ last, EndsIn path path.names.dropLast last ∧
    location = lead (disk.start path) path.names.dropLast ++ [last]

/-- There are directories all the way to the last name of a path. -/
def Entered (disk : Disk) (path : Path) : Prop :=
  Usable path ∧ disk.Opens (disk.start path) path.names.dropLast

namespace Reaches

/-- A path with a proper last name reaches the location below where the names in front lead. -/
theorem of_ends {front : List String} {last : String} (ends : EndsIn path front last)
    (same : location = lead (disk.start path) front ++ [last]) : disk.Reaches path location := by
  have isFront : path.names.dropLast = front := by
    rw [ends.names, List.dropLast_concat]
  exact ⟨last, isFront.symm ▸ ends, isFront.symm ▸ same⟩

/-- The location that a path reaches depends on the working directory alone. -/
theorem of_current (reaches : disk.Reaches path location) (same : after.current = disk.current) :
    after.Reaches path location := by
  obtain ⟨last, ends, place⟩ := reaches
  exact ⟨last, ends, (start_congr same path).symm ▸ place⟩

/-- A path from a location with proper names reaches one. -/
theorem proper (reaches : disk.Reaches path location) (start : Proper (disk.start path)) :
    Proper location := by
  obtain ⟨last, ends, rfl⟩ := reaches
  exact List.forall_mem_append.mpr
    ⟨proper_lead start ends.named, List.forall_mem_singleton.mpr ends.proper⟩

/-- There is something at a path if and only if directories lead to its last name and something is
there. -/
theorem has_iff (reaches : disk.Reaches path location) :
    disk.has path.toText = true ↔
      disk.Entered path ∧ ∃ node, disk.node? location = some node := by
  obtain ⟨last, ends, rfl⟩ := reaches
  rw [Disk.has_iff ends]
  exact ⟨fun ⟨node, usable, opens, found⟩ => ⟨⟨usable, opens⟩, node, found⟩,
    fun ⟨⟨usable, opens⟩, node, found⟩ => ⟨node, usable, opens, found⟩⟩

/-- Bytes are read at a path if and only if directories lead to its last name and a file with them
is there. -/
theorem read_eq_ok (reaches : disk.Reaches path location) :
    disk.read path.toText = .ok bytes ↔
      disk.Entered path ∧ disk.node? location = some (.file bytes) := by
  obtain ⟨last, ends, rfl⟩ := reaches
  rw [Disk.read_eq_ok ends, Entered, and_assoc]

/-- What leads to a file that is read or written stays while the files grow. -/
theorem entered (reaches : disk.Reaches path location) (start : Proper (disk.start path))
    (grows : Grows made written disk after) (entered : disk.Entered path) :
    after.Entered path := by
  obtain ⟨last, ends, -⟩ := reaches
  obtain ⟨usable, opens⟩ := entered
  exact ⟨usable, (start_congr grows.current path).symm ▸ grows.opens start ends.named opens⟩

/-- What is read at a path is still read there when the files have grown elsewhere. -/
theorem read_kept (reaches : disk.Reaches path location) (start : Proper (disk.start path))
    (grows : Grows made written disk after) (unwritten : ¬ written location)
    (read : disk.read path.toText = .ok bytes) : after.read path.toText = .ok bytes := by
  obtain ⟨entered, found⟩ := reaches.read_eq_ok.mp read
  exact (reaches.of_current grows.current).read_eq_ok.mpr
    ⟨reaches.entered start grows entered,
      grows.keeps (reaches.proper start) unwritten found⟩

/-- Writing a file at a path adds it at the location that the path reaches, or replaces the one that
was there. -/
theorem of_write (reaches : disk.Reaches path location)
    (write : disk.write path.toText bytes = .ok after) :
    disk.Entered path ∧ after.node? location = some (.file bytes) ∧
      Grows (fun _ => False) (· = location) disk after := by
  obtain ⟨last, ends, rfl⟩ := reaches
  obtain ⟨usable, opens, -, rfl⟩ := Disk.of_write ends write
  exact ⟨⟨usable, opens⟩, node?_put_self (List.append_ne_nil_of_right_ne_nil _ (by simp)),
    write_grows ends write⟩

end Reaches

end TemplHighlight.Disk
