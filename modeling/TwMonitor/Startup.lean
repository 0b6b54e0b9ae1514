import TwMonitor.WordBlocks

/-!
# From reset to the first call

The reset handler of an image in flash copies the vector table and the initialised data to
where they are linked, sets the vector table offset and clears the data without
initialisers. The places come from the linker, which puts the sections of SRAM one behind
the other.
-/
namespace TwMonitor.Startup
open ByteMemory WordBlocks

def flashStart : Address := 0x08000000

def sramStart : Address := 0x20000000

/-- 4k below the end of the SRAM. -/
def stackCeiling : Address := 0x2001F000

/-- No section has more words than the SRAM. -/
def sramWords : ℕ := 2 ^ 15

/-- The symbols of the linker script for flash. -/
structure FlashImage where
  vectSizeWords : BitVec 32
  dataLmaStart : Address
  dataVmaStart : Address
  dataSizeWords : BitVec 32
  bssVmaStart : Address
  bssSizeWords : BitVec 32
  vect_data : sramStart.toNat + 4 * vectSizeWords.toNat ≤ dataVmaStart.toNat
  data_bss : dataVmaStart.toNat + 4 * dataSizeWords.toNat ≤ bssVmaStart.toNat
  bss_end : bssVmaStart.toNat + 4 * bssSizeWords.toNat ≤ sramStart.toNat + 4 * sramWords
  vect_loaded : flashStart.toNat + 4 * vectSizeWords.toNat ≤ dataLmaStart.toNat
  data_loaded : dataLmaStart.toNat + 4 * dataSizeWords.toNat ≤ flashStart.toNat + 2 ^ 19

/-- Memory and the vector table offset register. -/
structure Machine where
  memory : Memory
  vtor : Address

/-- Up to the call of `board_init`. -/
def startupEntry (image : FlashImage) (m : Memory) : Option Machine := do
  let vect ← loop copyRound sramWords
    { src := flashStart, dst := sramStart, words := image.vectSizeWords, memory := m }
  let data ← loop copyRound sramWords
    { src := image.dataLmaStart, dst := image.dataVmaStart, words := image.dataSizeWords
      memory := vect.memory }
  let bss ← loop clearRound sramWords
    { src := data.src, dst := image.bssVmaStart, words := image.bssSizeWords
      memory := data.memory }
  some { memory := bss.memory, vtor := sramStart }

/-! ## The loops -/

theorem apart_of_lt {src dst : Address} {k : ℕ} (h : src.toNat + k ≤ dst.toNat)
    (hend : dst.toNat + k ≤ 2 ^ 32) : Apart src dst k := by
  intro a hsrc hdst
  unfold InRange at hsrc hdst
  bv_omega

theorem copy_section {src dst : Address} {words : BitVec 32} (m : Memory)
    (hwords : words.toNat ≤ sramWords) (h : src.toNat + 4 * words.toNat ≤ dst.toNat)
    (hend : dst.toNat + 4 * words.toNat ≤ 2 ^ 32) :
    ∃ t, loop copyRound sramWords { src, dst, words, memory := m } = some t ∧
      t.memory = moved m src dst (4 * words.toNat) := by
  obtain ⟨t,ht,hmemory⟩ :=
    @copy_loop words.toNat { src, dst, words, memory := m } rfl
      (by unfold sramWords at hwords; omega)
      (apart_of_lt h hend)
  exact ⟨t,WhileLoop.run_mono ht hwords,hmemory⟩

theorem clear_section {src dst : Address} {words : BitVec 32} (m : Memory)
    (hwords : words.toNat ≤ sramWords) :
    ∃ t, loop clearRound sramWords { src, dst, words, memory := m } = some t ∧
      t.memory = cleared m dst (4 * words.toNat) := by
  obtain ⟨t,ht,hmemory⟩ :=
    @clear_loop words.toNat { src, dst, words, memory := m } rfl
      (by unfold sramWords at hwords; omega)
  exact ⟨t,WhileLoop.run_mono ht hwords,hmemory⟩

section
variable (image : FlashImage) (m : Memory)

namespace FlashImage

theorem vect_words : image.vectSizeWords.toNat ≤ sramWords := by
  have h := image.vect_data
  have h' := image.data_bss
  have h'' := image.bss_end
  omega

theorem data_words : image.dataSizeWords.toNat ≤ sramWords := by
  have h := image.vect_data
  have h' := image.data_bss
  have h'' := image.bss_end
  omega

theorem bss_words : image.bssSizeWords.toNat ≤ sramWords := by
  have h := image.vect_data
  have h' := image.data_bss
  have h'' := image.bss_end
  omega

/-- Memory with all sections in their places. -/
def loaded : Memory :=
  cleared (moved (moved m flashStart sramStart (4 * image.vectSizeWords.toNat))
    image.dataLmaStart image.dataVmaStart (4 * image.dataSizeWords.toNat))
    image.bssVmaStart (4 * image.bssSizeWords.toNat)

end FlashImage

theorem startupEntry_eq :
    startupEntry image m = some { memory := image.loaded m, vtor := sramStart } := by
  have hflash : flashStart.toNat + 2 ^ 19 ≤ sramStart.toNat := by decide
  have hvect := image.vect_data
  have hdata := image.data_bss
  have hvectLoaded := image.vect_loaded
  have hdataLoaded := image.data_loaded
  have hbss := image.bss_end
  have hsram : sramStart.toNat + 4 * sramWords ≤ 2 ^ 32 := by decide
  obtain ⟨vect,hvectLoop,hvectMemory⟩ :=
    @copy_section flashStart sramStart image.vectSizeWords m image.vect_words (by omega) (by omega)
  obtain ⟨data,hdataLoop,hdataMemory⟩ :=
    @copy_section image.dataLmaStart image.dataVmaStart image.dataSizeWords vect.memory
      image.data_words (by omega) (by omega)
  obtain ⟨bss,hbssLoop,hbssMemory⟩ :=
    @clear_section data.src image.bssVmaStart image.bssSizeWords data.memory image.bss_words
  rw [startupEntry,hvectLoop]
  simp only [Option.bind_eq_bind,Option.bind_some]
  rw [hdataLoop]
  simp only [Option.bind_some]
  rw [hbssLoop]
  simp only [Option.bind_some]
  rw [hbssMemory,hdataMemory,hvectMemory]
  rfl

/-! ## Where the sections are -/

/-- The bytes of SRAM that the linker has given to a section. -/
def FlashImage.Linked (a : Address) : Prop :=
  InRange sramStart (4 * image.vectSizeWords.toNat) a ∨
    InRange image.dataVmaStart (4 * image.dataSizeWords.toNat) a ∨
      InRange image.bssVmaStart (4 * image.bssSizeWords.toNat) a

namespace FlashImage

theorem loaded_bss {a : Address} (h : InRange image.bssVmaStart (4 * image.bssSizeWords.toNat) a) :
    image.loaded m a = 0 :=
  if_pos h

theorem loaded_data {i : ℕ} (hi : i < 4 * image.dataSizeWords.toNat) :
    image.loaded m (image.dataVmaStart + BitVec.ofNat 32 i) =
      m (image.dataLmaStart + BitVec.ofNat 32 i) := by
  have hvect := image.vect_data
  have hdata := image.data_bss
  have hbss := image.bss_end
  have hloaded := image.data_loaded
  have hsram : sramStart.toNat + 4 * sramWords = 0x20020000 := by decide
  have hflash : flashStart.toNat + 2 ^ 19 ≤ sramStart.toNat := by decide
  have hnotBss : ¬(image.dataVmaStart + BitVec.ofNat 32 i - image.bssVmaStart).toNat <
      4 * image.bssSizeWords.toNat := by
    bv_omega
  have hin : (image.dataVmaStart + BitVec.ofNat 32 i - image.dataVmaStart).toNat <
      4 * image.dataSizeWords.toNat := by
    bv_omega
  have hnotVect : ¬(image.dataLmaStart + BitVec.ofNat 32 i - sramStart).toNat <
      4 * image.vectSizeWords.toNat := by
    bv_omega
  rw [loaded,cleared,if_neg hnotBss,moved,if_pos hin]
  have hsource : image.dataLmaStart +
      (image.dataVmaStart + BitVec.ofNat 32 i - image.dataVmaStart) =
        image.dataLmaStart + BitVec.ofNat 32 i := by
    bv_omega
  rw [hsource,moved,if_neg hnotVect]

theorem loaded_vect {i : ℕ} (hi : i < 4 * image.vectSizeWords.toNat) :
    image.loaded m (sramStart + BitVec.ofNat 32 i) = m (flashStart + BitVec.ofNat 32 i) := by
  have hvect := image.vect_data
  have hdata := image.data_bss
  have hbss := image.bss_end
  have hsram : sramStart.toNat + 4 * sramWords = 0x20020000 := by decide
  have hnotBss : ¬(sramStart + BitVec.ofNat 32 i - image.bssVmaStart).toNat <
      4 * image.bssSizeWords.toNat := by
    bv_omega
  have hnotData : ¬(sramStart + BitVec.ofNat 32 i - image.dataVmaStart).toNat <
      4 * image.dataSizeWords.toNat := by
    bv_omega
  have hin : (sramStart + BitVec.ofNat 32 i - sramStart).toNat <
      4 * image.vectSizeWords.toNat := by
    bv_omega
  rw [loaded,cleared,if_neg hnotBss,moved,if_neg hnotData,moved,if_pos hin]
  exact congrArg m (by bv_omega)

theorem loaded_frame {a : Address} (h : ¬image.Linked a) : image.loaded m a = m a := by
  obtain ⟨hvect,hrest⟩ := not_or.mp h
  obtain ⟨hdata,hbss⟩ := not_or.mp hrest
  unfold InRange at hvect hdata hbss
  rw [loaded,cleared,if_neg hbss,moved,if_neg hdata,moved,if_neg hvect]

end FlashImage

/-- The startup code puts every section of an image in flash in its place. -/
theorem startup_loads_image : ∃ s, startupEntry image m = some s ∧ s.vtor = sramStart ∧
    (∀ i < 4 * image.vectSizeWords.toNat,
      s.memory (s.vtor + BitVec.ofNat 32 i) = m (flashStart + BitVec.ofNat 32 i)) ∧
    (∀ i < 4 * image.dataSizeWords.toNat,
      s.memory (image.dataVmaStart + BitVec.ofNat 32 i) =
        m (image.dataLmaStart + BitVec.ofNat 32 i)) ∧
    (∀ a, InRange image.bssVmaStart (4 * image.bssSizeWords.toNat) a → s.memory a = 0) ∧
    ∀ a, ¬image.Linked a → s.memory a = m a := by
  refine ⟨_,startupEntry_eq image m,rfl,?_,?_,?_,?_⟩
  · intro i hi
    exact image.loaded_vect m hi
  · intro i hi
    exact image.loaded_data m hi
  · intro a ha
    exact image.loaded_bss m ha
  · intro a ha
    exact image.loaded_frame m ha

end

/-- Vectors, sixteen words with initialisers and sixty-four without. -/
def smallImage : FlashImage where
  vectSizeWords := 102
  dataLmaStart := 0x08006000
  dataVmaStart := 0x20000198
  dataSizeWords := 16
  bssVmaStart := 0x200001D8
  bssSizeWords := 64
  vect_data := by decide
  data_bss := by decide
  bss_end := by decide
  vect_loaded := by decide
  data_loaded := by decide

/-- Flash and SRAM differ at every offset. -/
def addressBytes : Memory := fun a => a.extractLsb' 0 8 + a.extractLsb' 24 8

theorem startup_loads_image_small : ∃ s, startupEntry smallImage addressBytes = some s ∧
    s.memory (s.vtor + 4) = 0x0C ∧ s.memory 0x20000199 = 0x09 ∧ s.memory 0x200001D9 = 0 ∧
      s.memory 0x200002D9 = 0xF9 := by
  obtain ⟨s,hs,-,hvect,hdata,hbss,hframe⟩ := startup_loads_image smallImage addressBytes
  exact ⟨s,hs,hvect 4 (by decide),hdata 1 (by decide),hbss 0x200001D9 (by decide),
    hframe 0x200002D9 (by unfold FlashImage.Linked; decide)⟩

end TwMonitor.Startup
