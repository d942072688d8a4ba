import Folio.Index.Embedding
import Folio.Proofs.CourseEnding

/-!
# Vectors of texts

Vectors are made for many texts in a row: the buckets of words are remembered
from one text to the next, and a vector is counted up word by word.  Neither can
be seen in what comes out.  Every text has the vector that it has by itself, and
the order of its words does not matter.

The invariant of the first part is that a remembered bucket is the bucket of the
word.  For the second part, what stands at a place of a vector depends only on
how often the place was hit.
-/

namespace Folio.Index

/-! ## Remembered buckets -/

/-- The buckets that are remembered are those of the words. -/
def Buckets.Faithful (seen : Buckets) : Prop :=
  ∀ word b, seen[word]? = some b → b = bucket word

theorem Buckets.faithful_empty : Buckets.Faithful ∅ := by
  intro word b hseen
  simp at hseen

theorem Buckets.Faithful.recall {seen : Buckets} (hseen : seen.Faithful) (word : Text) :
    (seen.recall word).1 = bucket word ∧ (seen.recall word).2.Faithful := by
  unfold Buckets.recall
  cases hword : seen[word]? with
  | some b => exact ⟨hseen word b hword, hseen⟩
  | none =>
    refine ⟨rfl, fun other b hother => ?_⟩
    rw [Std.HashMap.getElem?_insert] at hother
    split at hother
    · rename_i hsame
      obtain rfl := eq_of_beq hsame
      exact (Option.some.inj hother).symm
    · exact hseen other b hother

theorem foldl_countWord (words : List Text) (counts : Embedding) {seen : Buckets}
    (hseen : seen.Faithful) : (words.foldl countWord (counts, seen)).1 =
        (words.map bucket).foldl (fun v b => v.modify b (· + 1.0)) counts ∧
      (words.foldl countWord (counts, seen)).2.Faithful := by
  induction words generalizing counts seen with
  | nil => exact ⟨rfl, hseen⟩
  | cons word rest ih =>
    obtain ⟨hbucket, hnext⟩ := hseen.recall word
    rw [List.foldl_cons, List.map_cons, List.foldl_cons, ← hbucket]
    exact ih _ hnext

/-! ## Counting up -/

theorem repeat_comm {α : Type} (f : α → α) (n : Nat) (a : α) :
    Nat.repeat f n (f a) = f (Nat.repeat f n a) := by
  induction n with
  | zero => rfl
  | succ n ih => exact congrArg f ih

theorem getElem?_foldl_modify (buckets : List Nat) (counts : Embedding) (i : Nat) :
    (buckets.foldl (fun v b => v.modify b (· + 1.0)) counts)[i]? =
      counts[i]?.map (Nat.repeat (· + 1.0) (buckets.count i)) := by
  induction buckets generalizing counts with
  | nil => simp [Nat.repeat]
  | cons b rest ih =>
    rw [List.foldl_cons, ih, List.getElem?_modify, List.count_cons]
    by_cases hb : b = i
    · simp [hb, Nat.repeat, repeat_comm, Function.comp_def]
    · simp [hb]

theorem foldl_modify_eq_histogram (buckets : List Nat) :
    buckets.foldl (fun v b => v.modify b (· + 1.0)) (List.replicate dimension 0.0) =
      histogram buckets := by
  refine List.ext_getElem? fun i => ?_
  rw [getElem?_foldl_modify, histogram, List.getElem?_map, List.getElem?_replicate]
  by_cases hi : i < dimension
  · rw [if_pos hi, List.getElem?_range hi]
    rfl
  · rw [if_neg hi, List.getElem?_eq_none (by simpa using hi)]
    rfl

theorem embedNext_spec {seen : Buckets} (hseen : seen.Faithful) (t : Text) :
    (embedNext seen t).1 = embed t ∧ (embedNext seen t).2.Faithful := by
  obtain ⟨hcounts, hnext⟩ := foldl_countWord (tokens t) (List.replicate dimension 0.0) hseen
  refine ⟨?_, hnext⟩
  change scaled _ = scaled _
  rw [hcounts, foldl_modify_eq_histogram]

/-! ## Texts in a row -/

variable {σ ε : Type}

theorem result_embedFrom (texts : List Text) {seen : Buckets} (hseen : seen.Faithful) (s : σ) :
    (embedFrom seen texts : Action σ ε _).result s = (s, .finished (texts.map embed)) := by
  induction texts generalizing seen with
  | nil => rfl
  | cons t rest ih =>
    obtain ⟨hvector, hnext⟩ := embedNext_spec hseen t
    unfold embedFrom
    rw [Action.result_bind_of_finished (Action.result_check _ s),
      Action.result_bind_of_finished (Action.result_checkTimes _ _ s)]
    dsimp only
    rw [Action.result_bind_of_finished (ih hnext), Action.result_pure, hvector]
    rfl

theorem result_embedAll (texts : List Text) (s : σ) :
    (embedAll texts : Action σ ε _).result s = (s, .finished (texts.map embed)) :=
  result_embedFrom texts Buckets.faithful_empty s

theorem embed_eq_of_perm {t u : Text} (hwords : (tokens t).Perm (tokens u)) :
    embed t = embed u := by
  have hcount (b : Nat) : ((tokens t).map bucket).count b = ((tokens u).map bucket).count b :=
    (hwords.map bucket).count_eq b
  simp only [embed, histogram, hcount]

/-- Making vectors comes to an end, with one vector for each text.  Wherever it does,
whatever comes before and after a text, the vector is the one that the text has by itself,
and it is the same for a text with the same words in another order. -/
theorem vectors_text_by_text (texts : List Text) (s : σ) :
    (∃ vectors, ((embedAll texts : Action σ ε _).run none s).ending = .finished vectors) ∧
      ∀ allowance vectors,
        ((embedAll texts : Action σ ε _).run allowance s).ending = .finished vectors →
        vectors.length = texts.length ∧
          ∀ (i : Nat) t v, texts[i]? = some t → vectors[i]? = some v →
            ∀ u, (tokens u).Perm (tokens t) →
              ((embedAll [u] : Action σ ε _).run none s).ending = .finished [v] := by
  constructor
  · exact ⟨_, (Action.ending_run_none _ _).trans (congrArg Prod.snd (result_embedAll texts s))⟩
  · intro allowance vectors hrun
    have hvectors : texts.map embed = vectors := by
      have hresult := Action.result_of_run hrun
      rw [result_embedAll, Prod.mk.injEq, Ending.finished.injEq] at hresult
      exact hresult.2
    subst hvectors
    refine ⟨List.length_map _, fun i t v ht hv u hwords => ?_⟩
    rw [List.getElem?_map, ht] at hv
    obtain rfl := Option.some.inj hv
    rw [Action.ending_run_none, result_embedAll, List.map_singleton, embed_eq_of_perm hwords]

/-- A text among others has the vector of its words in another order and in another case. -/
theorem swapped_words_alike :
    ∃ v, ((embedAll ["b".toList, "a b".toList] : Action Unit Empty _).run none ()).ending =
        .finished [embed "b".toList, v] ∧
      ((embedAll ["B, A".toList] : Action Unit Empty _).run none ()).ending = .finished [v] := by
  have hwords : (tokens "B, A".toList).Perm (tokens "a b".toList) := by decide
  have hrun : ((embedAll ["b".toList, "a b".toList] : Action Unit Empty _).run none ()).ending =
      .finished [embed "b".toList, embed "a b".toList] :=
    (Action.ending_run_none _ _).trans (congrArg Prod.snd (result_embedAll _ ()))
  exact ⟨_, hrun, ((vectors_text_by_text _ ()).2 none _ hrun).2 1 _ _ rfl rfl _ hwords⟩

end Folio.Index
