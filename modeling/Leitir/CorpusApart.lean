import Leitir.CorpusRemove

namespace Leitir.Removal

open List

open FileTree (Tree)
open Archive (Name Path)
open Shelf (ShelfRef code)
open Snapshot (Unlinked)
open Corpus (targetPath slash)
open Search (chars)

section

variable {shelf other : ShelfRef} {path otherPath : List Search.Text}

def identity (shelf : ShelfRef) : Name × Name × Name := (shelf.host, shelf.owner ++ '/' :: shelf.repo, shelf.commit)

def Apart (path otherPath : List Search.Text) : Prop := path ≠ otherPath ∧ ¬ path <+: otherPath ∧ ¬ otherPath <+: path

/-- The project of a shelf and then its commit are the first names of another project on the host with subgroups. -/
def Within (shelf other : ShelfRef) : Prop :=
  shelf.host = gitlab ∧ other.host = gitlab ∧ projectParts shelf ++ [code shelf.commit] <+: projectParts other

theorem slug_coded (shelf : ShelfRef) : shelf.coded.slug = code (shelf.owner ++ '/' :: shelf.repo) := by
  simp [Corpus.ShelfRef.slug, ShelfRef.coded, code, chars]

theorem Accepted.module_parts (h : Accepted shelf path) (hgo : shelf.host = goModuleZip) :
    path = [chars "repos", code shelf.host, code shelf.owner, code shelf.commit] ∧ shelf.repo = shelf.commit ∧
      '/' ∉ shelf.owner ∧ FileTree.isProper shelf.owner = true := by
  have hcoded : shelf.coded.host = chars "go-module-zip" := congrArg code hgo
  have htwo := h.two (by rw [hcoded]; decide)
  have hsplit : projectParts shelf = (code shelf.owner).splitOn slash ++ (code shelf.repo).splitOn slash := by
    unfold projectParts Corpus.ShelfRef.slug
    rw [append_assoc]
    exact splitOn_append_cons_self _ _
  have hone : ((code shelf.owner).splitOn slash).length = 1 := by
    have hleft := length_pos_iff.mpr (splitOn_ne_nil slash (code shelf.owner))
    have hright := length_pos_iff.mpr (splitOn_ne_nil slash (code shelf.repo))
    rw [hsplit, length_append] at htwo
    omega
  obtain ⟨part, hpart⟩ := length_eq_one_iff.mp hone
  have howner : part = code shelf.owner := by
    have htext := @intercalate_splitOn Nat (code shelf.owner) _ _ slash
    rw [hpart] at htext
    simpa using htext
  rw [howner] at hpart
  refine ⟨?_, code_inj (h.module hcoded), fun hslash => ?_, ?_⟩
  · rw [h.path_eq, if_pos hcoded]
    rfl
  · exact LineCut.not_mem_splitOn _ _ (hpart ▸ mem_singleton_self _) (mem_map_of_mem hslash)
  · have hname := h.names (code shelf.owner) (by rw [hsplit, hpart]; simp)
    rwa [hostPath_code] at hname

theorem code_repos : code reposName = chars "repos" := rfl

theorem code_hostPart {part : Search.Text} (h : ∀ n ∈ part, ∃ ch : Char, ch.toNat = n) : code (part.map Char.ofNat) = part := by
  unfold code
  rw [map_map]
  refine (map_congr_left fun n hn => ?_).trans (map_id part)
  obtain ⟨ch, rfl⟩ := h n hn
  exact congrArg Char.toNat (Char.ofNat_toNat ch)

theorem Accepted.coded (h : Accepted shelf path) : (hostPath path).map code = path := by
  by_cases hgo : shelf.host = goModuleZip
  · obtain ⟨rfl, -⟩ := h.module_parts hgo
    simp only [hostPath, map_cons, map_nil, hostPath_code]
    rfl
  · have hcoded : shelf.coded.host ≠ chars "go-module-zip" := fun heq => hgo (code_inj heq)
    rw [h.hostPath_eq hgo, h.path_eq, if_neg hcoded]
    have hparts : (hostPath (projectParts shelf)).map code = projectParts shelf := by
      unfold hostPath
      rw [map_map]
      refine (map_congr_left fun part hpart => code_hostPart fun n hn => ?_).trans (map_id _)
      have hslug := LineCut.mem_of_mem_splitOn hpart hn
      rw [slug_coded] at hslug
      obtain ⟨ch, -, hch⟩ := mem_map.mp hslug
      exact ⟨ch, hch⟩
    simp only [map_cons, map_append, map_nil, hparts, code_repos, ShelfRef.coded]

/-- The removal of a shelf takes its directory. -/
theorem Accepted.removal (h : Accepted shelf path) (root : Path) (hpath : targetPath shelf.coded = .ok path) :
    ∃ rest, rest ≠ [] ∧ hostPath path = reposName :: rest ++ [shelf.commit] ∧
      (∀ part ∈ hostPath path, FileTree.isProper part = true) ∧
      removalPaths root shelf.owner shelf.repo (some shelf.commit) shelf.host =
        .ok (root ++ reposName :: rest, root ++ reposName :: rest ++ [shelf.commit]) := by
  obtain ⟨hcommit, hslash⟩ := commit_name h.commit
  have hrepos : FileTree.isProper reposName = true := by decide
  have hgiven : given (some shelf.commit) = some shelf.commit := by
    have hne : shelf.commit ≠ [] := (proper_iff_ne.mp hcommit).1
    simp [given, Option.filter, hne]
  by_cases hgo : shelf.host = goModuleZip
  · obtain ⟨rfl, hrepo, hownerSlash, howner⟩ := h.module_parts hgo
    have hhost : hostPath [chars "repos", code shelf.host, code shelf.owner, code shelf.commit] =
        reposName :: [shelf.host, shelf.owner] ++ [shelf.commit] := by
      simp only [hostPath, map_cons, map_nil, hostPath_code]
      rfl
    refine ⟨[shelf.host, shelf.owner], cons_ne_nil _ _, hhost, ?_, ?_⟩
    · rw [hhost]
      intro part hpart
      simp only [cons_append, nil_append, mem_cons, not_mem_nil, or_false] at hpart
      rcases hpart with rfl | rfl | rfl | rfl
      · exact hrepos
      · exact h.host_proper
      · exact howner
      · exact hcommit
    · unfold removalPaths
      rw [if_pos hgo]
      dsimp only
      rw [joinPath_name howner hownerSlash, hrepo, joinPath_name hcommit hslash]
      simp
      rfl
  · have hhost := h.hostPath_eq hgo
    refine ⟨shelf.host :: hostPath (projectParts shelf), cons_ne_nil _ _, hhost, ?_, ?_⟩
    · rw [hhost]
      intro part hpart
      rcases mem_append.mp hpart with hpart | hpart
      · rcases mem_cons.mp hpart with rfl | hpart
        · exact hrepos
        · rcases mem_cons.mp hpart with rfl | hpart
          · exact h.host_proper
          · obtain ⟨text, htext, rfl⟩ := mem_map.mp hpart
            exact h.names text htext
      · rw [mem_singleton.mp hpart]
        exact hcommit
    · unfold removalPaths
      rw [if_neg hgo, hgiven, Option.getD_some]
      have hshelf : targetPath (ShelfRef.coded ⟨shelf.host, shelf.owner, shelf.repo, shelf.commit⟩) = .ok path := hpath
      rw [hshelf]
      have hdrop : (hostPath path).dropLast = reposName :: shelf.host :: hostPath (projectParts shelf) := by
        rw [hhost]
        exact dropLast_concat
      change (.ok (root ++ (hostPath path).dropLast, joinPath (root ++ (hostPath path).dropLast) shelf.commit) : Except _ _) = _
      rw [joinPath_name hcommit hslash, hdrop]

end

end Leitir.Removal
