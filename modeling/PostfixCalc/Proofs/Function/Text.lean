import PostfixCalc.Function
import PostfixCalc.Proofs.Text.Character

/-!
# The written form of a function determines it

Names are written without quotes, so a name may itself look like a signature, or hold the
sign that stands between a name and a signature.  Signatures are written with few
characters, and a colon is none of them.  So a signature starts behind the last colon, and
its words are the labels of its inputs, an arrow and the labels of its outputs.
-/

namespace PostfixCalc

theorem Ty.label_injective {t u : Ty} (h : t.label = u.label) : t = u := by
  revert h
  cases t <;> cases u <;> decide

theorem Ty.isWord_label (t : Ty) : IsWord t.label.toList := by
  cases t <;> simp [IsWord, label, isBlank]

theorem Ty.label_ne_arrow (t : Ty) : t.label ≠ "->" := by
  cases t <;> decide

/-- What stands behind a mark that does not come again. -/
theorem eq_of_append_cons_eq {α : Type} {xs xs' ys ys' : List α} {a : α} (hys : a ∉ ys)
    (hys' : a ∉ ys') (h : xs ++ a :: ys = xs' ++ a :: ys') : xs = xs' ∧ ys = ys' := by
  rcases List.append_eq_append_iff.mp h with ⟨between, rfl, hrest⟩ | ⟨between, rfl, hrest⟩
  · cases between with
    | nil => simpa using hrest
    | cons b between =>
        obtain ⟨-, rfl⟩ := List.cons.inj hrest
        simp at hys
  · cases between with
    | nil => simpa using hrest.symm
    | cons b between =>
        obtain ⟨-, rfl⟩ := List.cons.inj hrest
        simp at hys'

namespace Signature

theorem lineWords_labels (types : List Ty) : lineWords (labels types) = types.map Ty.label := by
  apply lineWords_intercalate
  intro word hword
  obtain ⟨t, -, rfl⟩ := List.mem_map.mp hword
  exact t.isWord_label

theorem lineWords_text (s : Signature) :
    lineWords s.text = s.inputs.map Ty.label ++ "->" :: s.outputs.map Ty.label := by
  have hgap : ∀ c ∈ " ".toList, isBlank c = true := by simp [isBlank]
  have harrow : lineWords "->" = ["->"] := by decide +kernel
  have houtputs : lineWords ("->" ++ " " ++ labels s.outputs) = "->" :: s.outputs.map Ty.label := by
    rw [lineWords_append (by decide) hgap, harrow, lineWords_labels, List.singleton_append]
  unfold text
  split
  · next hnone =>
    rw [List.isEmpty_iff.mp hnone]
    exact houtputs
  · have hparts : labels s.inputs ++ " -> " ++ labels s.outputs =
        labels s.inputs ++ " " ++ ("->" ++ " " ++ labels s.outputs) := by
      simp only [String.append_assoc]
      rfl
    rw [hparts, lineWords_append (by decide) hgap, lineWords_labels, houtputs]

/-- An arrow is no label, so the inputs end where it stands. -/
theorem eq_of_text_eq {s t : Signature} (h : s.text = t.text) : s = t := by
  have harrow : ∀ types : List Ty, "->" ∉ types.map Ty.label := by
    intro types hmem
    obtain ⟨u, -, hu⟩ := List.mem_map.mp hmem
    exact u.label_ne_arrow hu
  have hwords := congrArg lineWords h
  rw [lineWords_text, lineWords_text] at hwords
  obtain ⟨hinputs, houtputs⟩ := eq_of_append_cons_eq (harrow _) (harrow _) hwords
  rw [List.map_inj_right fun _ _ => Ty.label_injective] at hinputs houtputs
  exact congrArg₂ mk hinputs houtputs

/-- The characters of labels, of the arrow and of the spaces between them. -/
def alphabet : List Char := " ->i32f64".toList

theorem toList_label_subset (t : Ty) : t.label.toList ⊆ alphabet := by
  cases t <;> decide

theorem toList_labels_subset (types : List Ty) : (labels types).toList ⊆ alphabet := by
  have hseparator : " ".toList ⊆ alphabet := by decide
  rw [labels, String.toList_intercalate]
  apply forall_mem_intercalate fun c hc => hseparator hc
  simpa using fun t _ c hc => toList_label_subset t hc

theorem toList_text_subset (s : Signature) : s.text.toList ⊆ alphabet := by
  have harrow : "-> ".toList ⊆ alphabet ∧ " -> ".toList ⊆ alphabet := by decide
  unfold text
  split
  · rw [String.toList_append]
    exact List.append_subset.mpr ⟨harrow.1, toList_labels_subset s.outputs⟩
  · rw [String.toList_append, String.toList_append]
    exact List.append_subset.mpr
      ⟨List.append_subset.mpr ⟨toList_labels_subset s.inputs, harrow.2⟩,
        toList_labels_subset s.outputs⟩

end Signature

namespace Function

/-- A name ends at the last colon, whatever it holds itself. -/
theorem eq_of_text_eq {f g : Function} (h : f.text = g.text) :
    f.name = g.name ∧ f.signature = g.signature := by
  have hchars (f : Function) :
      f.text.toList = (f.name.toList ++ [' ', ':']) ++ ':' :: ' ' :: f.signature.text.toList := by
    simp [text]
  have hcolon (f : Function) : ':' ∉ ' ' :: f.signature.text.toList := by
    intro hmem
    have hspace : ':' ∉ ' ' :: Signature.alphabet := by decide
    exact hspace (List.cons_subset_cons _ f.signature.toList_text_subset hmem)
  have htext := congrArg String.toList h
  rw [hchars, hchars] at htext
  obtain ⟨hname, hsignature⟩ := eq_of_append_cons_eq (hcolon f) (hcolon g) htext
  exact ⟨String.toList_injective (List.append_cancel_right hname),
    Signature.eq_of_text_eq (String.toList_injective (List.cons.inj hsignature).2)⟩

/-- Functions are the same exactly if they are written in the same way, whatever their names
hold and however many inputs and outputs they have.  The text of a signature alone
determines its inputs and its outputs. -/
theorem same_iff_text_eq (f g : Function) :
    (f.same g = true ↔ f.text = g.text) ∧
      (f.signature.text = g.signature.text ↔
        f.signature.inputs = g.signature.inputs ∧ f.signature.outputs = g.signature.outputs) := by
  constructor
  · rw [same, Bool.and_eq_true, beq_iff_eq, beq_iff_eq]
    constructor
    · rintro ⟨hname, hsignature⟩
      rw [text, text, hname, hsignature]
    · exact eq_of_text_eq
  · constructor
    · intro htext
      rw [Signature.eq_of_text_eq htext]
      exact ⟨rfl, rfl⟩
    · rintro ⟨hinputs, houtputs⟩
      rw [Signature.text, Signature.text, hinputs, houtputs]

end Function

end PostfixCalc
