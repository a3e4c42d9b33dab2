import Tbm.Bufmgr.DebugData
import Tbm.Core.Copies
import Tbm.Core.Strings

/-! What `tbm_bufmgr_debug_show` prints. The title and the line of a surface are put together in
buffers of 512 bytes on the stack. -/
namespace Tbm.Bufmgr

def ascii (s : String) : Str := s.toList.map fun c => c.toNat.toUInt8

/-- `_tbm_surface_internal_format_to_str`. -/
def Format.toStr : Format → String
  | c8 => "TBM_FORMAT_C8"
  | rgb332 => "TBM_FORMAT_RGB332"
  | bgr233 => "TBM_FORMAT_BGR233"
  | xrgb4444 => "TBM_FORMAT_XRGB4444"
  | xbgr4444 => "TBM_FORMAT_XBGR4444"
  | rgbx4444 => "TBM_FORMAT_RGBX4444"
  | bgrx4444 => "TBM_FORMAT_BGRX4444"
  | argb4444 => "TBM_FORMAT_ARGB4444"
  | abgr4444 => "TBM_FORMAT_ABGR4444"
  | rgba4444 => "TBM_FORMAT_RGBA4444"
  | bgra4444 => "TBM_FORMAT_BGRA4444"
  | xrgb1555 => "TBM_FORMAT_XRGB1555"
  | xbgr1555 => "TBM_FORMAT_XBGR1555"
  | rgbx5551 => "TBM_FORMAT_RGBX5551"
  | bgrx5551 => "TBM_FORMAT_BGRX5551"
  | argb1555 => "TBM_FORMAT_ARGB1555"
  | abgr1555 => "TBM_FORMAT_ABGR1555"
  | rgba5551 => "TBM_FORMAT_RGBA5551"
  | bgra5551 => "TBM_FORMAT_BGRA5551"
  | rgb565 => "TBM_FORMAT_RGB565"
  | bgr565 => "TBM_FORMAT_BGR565"
  | rgb888 => "TBM_FORMAT_RGB888"
  | bgr888 => "TBM_FORMAT_BGR888"
  | xrgb8888 => "TBM_FORMAT_XRGB8888"
  | xbgr8888 => "TBM_FORMAT_XBGR8888"
  | rgbx8888 => "TBM_FORMAT_RGBX8888"
  | bgrx8888 => "TBM_FORMAT_BGRX8888"
  | argb8888 => "TBM_FORMAT_ARGB8888"
  | abgr8888 => "TBM_FORMAT_ABGR8888"
  | rgba8888 => "TBM_FORMAT_RGBA8888"
  | bgra8888 => "TBM_FORMAT_BGRA8888"
  | xrgb2101010 => "TBM_FORMAT_XRGB2101010"
  | xbgr2101010 => "TBM_FORMAT_XBGR2101010"
  | rgbx1010102 => "TBM_FORMAT_RGBX1010102"
  | bgrx1010102 => "TBM_FORMAT_BGRX1010102"
  | argb2101010 => "TBM_FORMAT_ARGB2101010"
  | abgr2101010 => "TBM_FORMAT_ABGR2101010"
  | rgba1010102 => "TBM_FORMAT_RGBA1010102"
  | bgra1010102 => "TBM_FORMAT_BGRA1010102"
  | yuyv => "TBM_FORMAT_YUYV"
  | yvyu => "TBM_FORMAT_YVYU"
  | uyvy => "TBM_FORMAT_UYVY"
  | vyuy => "TBM_FORMAT_VYUY"
  | ayuv => "TBM_FORMAT_AYUV"
  | nv12 => "TBM_FORMAT_NV12"
  | nv21 => "TBM_FORMAT_NV21"
  | nv16 => "TBM_FORMAT_NV16"
  | nv61 => "TBM_FORMAT_NV61"
  | yuv410 => "TBM_FORMAT_YUV410"
  | yvu410 => "TBM_FORMAT_YVU410"
  | yuv411 => "TBM_FORMAT_YUV411"
  | yvu411 => "TBM_FORMAT_YVU411"
  | yuv420 => "TBM_FORMAT_YUV420"
  | yvu420 => "TBM_FORMAT_YVU420"
  | yuv422 => "TBM_FORMAT_YUV422"
  | yvu422 => "TBM_FORMAT_YVU422"
  | yuv444 => "TBM_FORMAT_YUV444"
  | yvu444 => "TBM_FORMAT_YVU444"
  | nv12mt => "TBM_FORMAT_NV12MT"
  | other _ => "unknwon"

def Format.isNamed : Format → Bool
  | other _ => false
  | _ => true

/-- What the process, `printf` and the backend give to the report. -/
structure ShowAnswers where
  pid : ℕ
  /-- The contents of `/proc/<pid>/cmdline` where it can be opened. -/
  cmdline : ℕ → Option Str
  surfacePtr : Option Surface → Str
  boPtr : Bo → Str
  boSize : Bo → ℤ
  /-- `debug_pid` of a surface. -/
  debugPid : Surface → ℕ

section Report

variable (x : ShowAnswers) (s : State)

/-- `%-nd`. -/
def columnInt (n : ℕ) (k : ℤ) : Str := column 32 n (ascii (String.ofList (decimal k)))

/-- `_tbm_util_get_appname_from_pid`; `str` stays as it is where there is nothing to read. -/
def tbmUtilGetAppnameFromPid (pid : ℕ) (str : Str) : Str :=
  match (x.cmdline pid).bind (fgets 255 10) with
  | none => str
  | some cmdline => snprintf 255 (cmdline.takeWhile (· ≠ 0))

/-- `_tbm_util_get_appname_brief`: the last token, by way of `temp`. -/
def tbmUtilGetAppnameBrief (brief : Str) : Str :=
  snprintf 255 ((tokens 47 brief).foldl (fun _ token => token.take 254) [])

def appName (pid : ℕ) : Str := tbmUtilGetAppnameBrief (tbmUtilGetAppnameFromPid x pid [])

def titleText : Str := ascii <|
  "no  surface     refcnt  width  height  bpp  size    n_b  n_p  flags  format    " ++
  "app_name       "

/-- The twelve columns of a surface. No code writes the `num_planes` next to `info`, which stays
zero. -/
def surfaceText (cnt : ℕ) (h : Surface) : Str :=
  let v := s.surface h
  let pid := if x.debugPid h = 0 then x.pid else x.debugPid h
  columnInt 2 cnt ++ ascii "  " ++ column 32 9 (x.surfacePtr (some h)) ++ ascii "    " ++
  columnInt 4 v.refcnt ++ ascii "  " ++ columnInt 5 v.info.width.toNat ++ ascii "  " ++
  columnInt 6 v.info.height.toNat ++ ascii "  " ++ columnInt 3 v.info.bpp.toNat ++ ascii "  " ++
  columnInt 6 (v.info.size / 1024).toNat ++ ascii "   " ++ columnInt 2 v.numBos ++ ascii "   " ++
  columnInt 2 0 ++ ascii "    " ++ columnInt 3 v.flags ++ ascii "  " ++
  column 32 8 ((ascii v.info.format.toStr).drop 11) ++ ascii "  " ++ column 32 15 (appName x pid)

def slotText (b : Bo) : Str :=
  ascii " bo:" ++ column 32 12 (x.boPtr b) ++ ascii "  " ++ columnInt 26 (s.bo b).refCnt ++
  columnInt 10 ((x.boSize b).tdiv 1024)

def boText (cnt : ℕ) (b : Bo) : Str :=
  let v := s.bo b
  columnInt 4 cnt ++ column 32 11 (x.boPtr b) ++ ascii "   " ++ columnInt 4 v.refCnt ++
  ascii "  " ++ columnInt 6 ((x.boSize b).tdiv 1024) ++ ascii "     " ++ columnInt 5 v.lockCnt ++
  ascii "     " ++ columnInt 4 v.mapCnt.toNat ++ ascii "    " ++ columnInt 3 v.flags ++
  ascii "  " ++ column 32 11 (x.surfacePtr v.surface)

/-- The buffers `title` and `data` have room for 512 bytes. -/
def appendStr (buf s : Str) (n : ℕ) : Option Str := strncat 512 buf s n

namespace DebugState

variable (d : DebugState)

/-- The loop over `debug_key_list` behind the title. -/
def showTitle : Option Str :=
  d.debugKeyList.foldlM (fun title e => do
    let title ← appendStr title (ascii "  ") 3
    let key ← e.key
    appendStr title key (key.length + 1)) (snprintf 255 titleText)

/-- What a surface has for the key of an entry, behind its line. -/
def showValue (h : Surface) (data : Str) (e : DebugData) : Option Str := do
  let data ← appendStr data (ascii "  ") 3
  let key ← e.key
  match ← d.tbmSurfaceInternalGetDebugData h key with
  | some value => appendStr data value (value.length + 1)
  | none => appendStr data (ascii "none") 5

/-- The line of a surface. A format without a name is printed from behind the end of its string. -/
def showData (cnt : ℕ) (h : Surface) : Option Str :=
  if 11 ≤ (s.surface h).info.format.toStr.length then
    d.debugKeyList.foldlM (d.showValue h) (snprintf 255 (surfaceText x s cnt h))
  else none

def showSurface (cnt : ℕ) (h : Surface) : Option (List Str) := do
  let data ← d.showData x s cnt h
  let bos ← (List.range (s.surface h).numBos.toNat).mapM fun i => (s.slotBo h i).map (slotText x s)
  some (data :: bos)

def showSurfaces : Option (List (List Str)) :=
  if s.surfList = [] then some [[ascii "no tbm_surfaces."]]
  else s.surfList.zipIdx.mapM fun r => d.showSurface x s (r.2 + 1) r.1

/-- `tbm_bufmgr_debug_show` inside the `gLock`, with the lines it prints. -/
def tbmBufmgrDebugShow (m : Option Mgr) : Option (List Str) :=
  if m.isSome ∧ m = s.gBufMgr then do
    let title ← d.showTitle
    let surfaces ← d.showSurfaces x s
    let bos := if s.boList = [] then [ascii "no tbm_bos."]
      else s.boList.zipIdx.map fun r => boText x s (r.2 + 1) r.1
    some <| [[], ascii "============TBM DEBUG: " ++ appName x x.pid ++ ascii "(" ++
      ascii (String.ofList (decimal x.pid)) ++ ascii ")===========================",
      ascii "[tbm_surface information]", title] ++ surfaces.flatten ++
      [[], ascii "[tbm_bo information]",
      ascii "no  bo          refcnt  size    lock_cnt  map_cnt  flags  surface"] ++ bos ++
      [[], ascii "==============================================================="]
  else some []

end DebugState

end Report

end Tbm.Bufmgr
