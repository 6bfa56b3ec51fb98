/-! Finite maps from names to values, in byte order of the names. -/

namespace WorkloadTuning

/-- The names strictly increase, so two maps with the same entries are equal. -/
structure Dict (β : Type) where
  entries : List (String × β)
  ordered : entries.Pairwise fun a b => a.1 < b.1
deriving DecidableEq, Repr

namespace Dict

variable {β γ : Type}

def empty : Dict β := ⟨[], .nil⟩

instance : Inhabited (Dict β) := ⟨empty⟩

def insertEntry (key : String) (value : β) : List (String × β) → List (String × β)
  | [] => [(key, value)]
  | (k, v) :: rest =>
    if key < k then (key, value) :: (k, v) :: rest
    else if key = k then (key, value) :: rest
    else (k, v) :: insertEntry key value rest

theorem mem_insertEntry {key : String} {value : β} {l : List (String × β)} {e : String × β}
    (h : e ∈ insertEntry key value l) : e = (key, value) ∨ e ∈ l := by
  induction l with
  | nil => simpa [insertEntry] using h
  | cons a rest ih =>
    unfold insertEntry at h
    split at h
    · simpa using h
    · split at h
      · rcases List.mem_cons.1 h with h | h
        · exact .inl h
        · exact .inr (List.mem_cons_of_mem _ h)
      · rcases List.mem_cons.1 h with h | h
        · exact .inr (by simp [h])
        · exact (ih h).imp id (List.mem_cons_of_mem _)

theorem insertEntry_ordered (key : String) (value : β) {l : List (String × β)}
    (h : l.Pairwise fun a b => a.1 < b.1) :
    (insertEntry key value l).Pairwise fun a b => a.1 < b.1 := by
  induction l with
  | nil => simp [insertEntry]
  | cons a rest ih =>
    obtain ⟨ha, hrest⟩ := List.pairwise_cons.1 h
    unfold insertEntry
    split
    · next lt =>
      refine List.pairwise_cons.2 ⟨fun b hb => ?_, h⟩
      rcases List.mem_cons.1 hb with rfl | hb
      · exact lt
      · exact String.lt_trans lt (ha b hb)
    · next nlt =>
      split
      · next eq => exact List.pairwise_cons.2 ⟨fun b hb => eq ▸ ha b hb, hrest⟩
      · next ne =>
        refine List.pairwise_cons.2 ⟨fun b hb => ?_, ih hrest⟩
        rcases mem_insertEntry hb with rfl | hb
        · exact String.not_le.1 fun le => ne (String.le_antisymm le (String.not_lt.1 nlt))
        · exact ha b hb

/-- Give the name a value, in place of an earlier one. -/
def insert (d : Dict β) (key : String) (value : β) : Dict β :=
  ⟨insertEntry key value d.entries, insertEntry_ordered key value d.ordered⟩

def get? (d : Dict β) (key : String) : Option β :=
  d.entries.lookup key

def contains (d : Dict β) (key : String) : Bool :=
  (d.get? key).isSome

/-- Give the name a value unless it has one. -/
def insertIfNew (d : Dict β) (key : String) (value : β) : Dict β :=
  if d.contains key then d else d.insert key value

def erase (d : Dict β) (key : String) : Dict β :=
  ⟨d.entries.filter fun e => e.1 != key, d.ordered.filter _⟩

/-- Later entries win. -/
def ofList (l : List (String × β)) : Dict β :=
  l.foldl (fun d e => d.insert e.1 e.2) empty

def isEmpty (d : Dict β) : Bool :=
  d.entries.isEmpty

end Dict

end WorkloadTuning
