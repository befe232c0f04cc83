import Transcriber.Text.Ranges
import Transcriber.Text.Split

/-!
# Case

The case maps of Unicode.  A map is given by runs of letters that are moved by the same distance,
and by a list of the letters that turn into several.  The capital sigma is the one letter whose
lower case depends on its neighbours: at the end of a word it becomes the final sigma.

* `upper`, `titled` — the upper case of a text, and each word with a capital first letter.
-/

namespace Transcriber.Text

/-- The letters from a first to a last one, every one or every second, and what the first turns
into; the others keep their distance from it. -/
abbrev CaseRun := Nat × Nat × Nat × Nat

def CaseRun.single : Nat × Nat → CaseRun
  | (letter, image) => (letter, letter, 1, image)

/-- Small and capital letters in turn: each small one comes after its capital one. -/
def CaseRun.alternate : Nat × Nat → CaseRun
  | (first, last) => (first, last, 2, first - 1)

/-- The way back from the images to the letters. -/
def CaseRun.back : CaseRun → CaseRun
  | (first, last, step, image) => (image, image + (last - first), step, first)

structure CaseMap where
  runs : List CaseRun
  /-- The letters that turn into several. -/
  several : List (Nat × List Nat)

namespace CaseMap

def apply (m : CaseMap) (c : Char) : List Char :=
  match m.several.lookup c.toNat with
  | some codes => codes.map Char.ofNat
  | none =>
      match m.runs.find? fun (first, last, step, _) =>
        first ≤ c.toNat && c.toNat ≤ last && (c.toNat - first) % step == 0 with
      | some (first, _, _, image) => [Char.ofNat (image + (c.toNat - first))]
      | none => [c]

end CaseMap

/-- The letters that turn into the same several ones in upper case and in title case. -/
def severalAlike : List (Nat × List Nat) := [
  (329, [700, 78]), (496, [74, 780]), (912, [921, 776, 769]), (944, [933, 776, 769]),
  (7830, [72, 817]), (7831, [84, 776]), (7832, [87, 778]), (7833, [89, 778]), (7834, [65, 702]),
  (8016, [933, 787]), (8018, [933, 787, 768]), (8020, [933, 787, 769]), (8022, [933, 787, 834]),
  (8118, [913, 834]), (8134, [919, 834]), (8146, [921, 776, 768]), (8147, [921, 776, 769]),
  (8150, [921, 834]), (8151, [921, 776, 834]), (8162, [933, 776, 768]), (8163, [933, 776, 769]),
  (8164, [929, 787]), (8166, [933, 834]), (8167, [933, 776, 834]), (8182, [937, 834])]

/-- The map to upper case.  Where letters share a capital one, that to which it goes back comes first.
-/
def upperMap : CaseMap where
  runs := [
      (97, 122, 1, 65), (224, 246, 1, 192), (248, 254, 1, 216), (575, 576, 1, 11390),
      (598, 599, 1, 393), (650, 651, 1, 433), (891, 893, 1, 1021), (941, 943, 1, 904),
      (945, 961, 1, 913), (963, 971, 1, 931), (973, 974, 1, 910), (1072, 1103, 1, 1040),
      (1104, 1119, 1, 1024), (1377, 1414, 1, 1329), (4304, 4346, 1, 7312), (4349, 4351, 1, 7357),
      (5112, 5117, 1, 5104), (7299, 7300, 1, 1057), (7936, 7943, 1, 7944), (7952, 7957, 1, 7960),
      (7968, 7975, 1, 7976), (7984, 7991, 1, 7992), (8000, 8005, 1, 8008), (8017, 8023, 2, 8025),
      (8032, 8039, 1, 8040), (8048, 8049, 1, 8122), (8050, 8053, 1, 8136), (8054, 8055, 1, 8154),
      (8056, 8057, 1, 8184), (8058, 8059, 1, 8170), (8060, 8061, 1, 8186), (8112, 8113, 1, 8120),
      (8144, 8145, 1, 8152), (8160, 8161, 1, 8168), (8560, 8575, 1, 8544), (9424, 9449, 1, 9398),
      (11312, 11359, 1, 11264), (11520, 11557, 1, 4256), (43888, 43967, 1, 5024),
      (65345, 65370, 1, 65313), (66600, 66639, 1, 66560), (66776, 66811, 1, 66736),
      (66967, 66977, 1, 66928), (66979, 66993, 1, 66940), (66995, 67001, 1, 66956),
      (67003, 67004, 1, 66964), (68800, 68850, 1, 68736), (71872, 71903, 1, 71840),
      (93792, 93823, 1, 93760), (125218, 125251, 1, 125184)] ++ [
      (257, 303), (307, 311), (314, 328), (331, 375), (378, 382), (387, 389), (417, 421),
      (436, 438), (462, 476), (479, 495), (505, 543), (547, 563), (583, 591), (881, 883),
      (985, 1007), (1121, 1153), (1163, 1215), (1218, 1230), (1233, 1327), (7681, 7829),
      (7841, 7935), (11368, 11372), (11393, 11491), (11500, 11502), (42561, 42605), (42625, 42651),
      (42787, 42799), (42803, 42863), (42874, 42876), (42879, 42887), (42897, 42899),
      (42903, 42921), (42933, 42947), (42952, 42954), (42967, 42969)].map CaseRun.alternate ++ [
      (181, 924), (255, 376), (305, 73), (383, 83), (384, 579), (392, 391), (396, 395), (402, 401),
      (405, 502), (409, 408), (410, 573), (414, 544), (424, 423), (429, 428), (432, 431),
      (441, 440), (445, 444), (447, 503), (454, 452), (453, 452), (457, 455), (456, 455),
      (460, 458), (459, 458), (477, 398), (499, 497), (498, 497), (501, 500), (572, 571),
      (578, 577), (592, 11375), (593, 11373), (594, 11376), (595, 385), (596, 390), (601, 399),
      (603, 400), (604, 42923), (608, 403), (609, 42924), (611, 404), (613, 42893), (614, 42922),
      (616, 407), (617, 406), (618, 42926), (619, 11362), (620, 42925), (623, 412), (625, 11374),
      (626, 413), (629, 415), (637, 11364), (640, 422), (642, 42949), (643, 425), (647, 42929),
      (648, 430), (649, 580), (652, 581), (658, 439), (669, 42930), (670, 42928), (837, 921),
      (887, 886), (940, 902), (962, 931), (972, 908), (976, 914), (977, 920), (981, 934),
      (982, 928), (983, 975), (1008, 922), (1009, 929), (1010, 1017), (1011, 895), (1013, 917),
      (1016, 1015), (1019, 1018), (1231, 1216), (7296, 1042), (7297, 1044), (7298, 1054),
      (7301, 1058), (7302, 1066), (7303, 1122), (7304, 42570), (7545, 42877), (7549, 11363),
      (7566, 42950), (7835, 7776), (8126, 921), (8165, 8172), (8526, 8498), (8580, 8579),
      (11361, 11360), (11365, 570), (11366, 574), (11379, 11378), (11382, 11381), (11507, 11506),
      (11559, 4295), (11565, 4301), (42892, 42891), (42900, 42948), (42961, 42960), (42998, 42997),
      (43859, 42931)].map CaseRun.single
  several :=
    -- Eight letters each with an iota below, which comes behind the letter.
    ([(8064, 7944), (8072, 7944), (8080, 7976), (8088, 7976), (8096, 8040), (8104, 8040)].flatMap
      fun (letter, image) => (List.range 8).map fun k => (letter + k, [image + k, 921])) ++ [
      (223, [83, 83]), (1415, [1333, 1362]), (8114, [8122, 921]), (8115, [913, 921]),
      (8116, [902, 921]), (8119, [913, 834, 921]), (8124, [913, 921]), (8130, [8138, 921]),
      (8131, [919, 921]), (8132, [905, 921]), (8135, [919, 834, 921]), (8140, [919, 921]),
      (8178, [8186, 921]), (8179, [937, 921]), (8180, [911, 921]), (8183, [937, 834, 921]),
      (8188, [937, 921]), (64256, [70, 70]), (64257, [70, 73]), (64258, [70, 76]),
      (64259, [70, 70, 73]), (64260, [70, 70, 76]), (64261, [83, 84]), (64262, [83, 84]),
      (64275, [1348, 1350]), (64276, [1348, 1333]), (64277, [1348, 1339]), (64278, [1358, 1350]),
      (64279, [1348, 1341])] ++ severalAlike

def titleMap : CaseMap where
  runs := [
      (4304, 4346, 1, 4304), (4349, 4351, 1, 4349), (8064, 8071, 1, 8072), (8080, 8087, 1, 8088),
      (8096, 8103, 1, 8104)] ++ [
      (452, 453), (453, 453), (454, 453), (455, 456), (456, 456), (457, 456), (458, 459),
      (459, 459), (460, 459), (497, 498), (498, 498), (499, 498), (8115, 8124), (8131, 8140),
      (8179, 8188)].map CaseRun.single ++ upperMap.runs
  several := [
      (223, [83, 115]), (1415, [1333, 1410]), (8114, [8122, 837]), (8116, [902, 837]),
      (8119, [913, 834, 837]), (8130, [8138, 837]), (8132, [905, 837]), (8135, [919, 834, 837]),
      (8178, [8186, 837]), (8180, [911, 837]), (8183, [937, 834, 837]), (64256, [70, 102]),
      (64257, [70, 105]), (64258, [70, 108]), (64259, [70, 102, 105]), (64260, [70, 102, 108]),
      (64261, [83, 116]), (64262, [83, 116]), (64275, [1348, 1398]), (64276, [1348, 1381]),
      (64277, [1348, 1387]), (64278, [1358, 1398]), (64279, [1348, 1389])] ++ severalAlike

/-- The map to lower case: that to upper case the other way, with some letters more. -/
def lowerMap : CaseMap where
  runs := [(8072, 8079, 1, 8064), (8088, 8095, 1, 8080), (8104, 8111, 1, 8096)] ++ [
      (453, 454), (456, 457), (459, 460), (498, 499), (1012, 952), (7838, 223), (8124, 8115),
      (8140, 8131), (8188, 8179), (8486, 969), (8490, 107), (8491, 229)].map CaseRun.single ++ upperMap.runs.map CaseRun.back
  several := [(304, [105, 775])]

def casedRanges : Spans := [
  65,26,6,26,47,1,10,1,4,1,5,23,1,31,1,195,1,4,4,208,1,36,7,2,30,5,96,1,42,4,2,2,2,4,1,1,6,1,1,3,1,
  1,1,20,1,83,1,139,8,166,1,38,9,41,2839,38,1,1,5,1,2,43,2,3,672,86,2,6,2178,9,7,43,2,3,64,192,64,
  278,2,6,2,38,2,6,2,8,1,1,1,1,1,1,1,31,2,53,1,7,1,1,3,3,1,7,3,4,2,6,4,13,5,3,1,7,116,1,13,1,16,13,
  101,1,4,1,2,10,1,1,3,5,6,1,1,1,1,1,1,4,1,6,4,1,2,4,5,5,4,1,17,32,3,2,817,52,1814,229,6,4,3,2,12,
  38,1,1,5,1,30994,46,18,30,132,102,3,4,1,59,5,2,1,1,1,5,27,2,1,3,821,43,1,13,7,80,20288,7,12,5,
  1033,26,6,26,1189,80,96,36,4,36,116,11,1,15,1,7,1,2,1,11,1,15,1,7,1,2,451,1,2,3,1,42,1,9,1221,51,
  13,51,2989,64,21856,64,25984,85,1,71,1,2,2,1,2,2,2,4,1,12,1,1,1,7,1,65,1,4,2,8,1,7,1,28,1,4,1,5,1,
  1,3,7,1,340,2,25,1,25,1,31,1,25,1,31,1,25,1,31,1,25,1,31,1,25,1,8,1844,10,1,20,2529,68,2028,26,6,
  26,6,26]

/-- The code points that do not count when the neighbours of a sigma are looked at. -/
def caseIgnorable : Spans := [
  39,1,6,1,11,1,35,1,1,1,71,1,4,1,1,1,4,1,2,2,503,192,4,2,4,1,9,2,1,1,251,7,207,1,5,1,49,45,1,1,1,2,
  1,2,1,1,44,1,11,6,10,11,1,1,35,1,10,21,16,1,101,8,1,10,1,4,33,1,1,1,30,27,91,11,58,11,4,1,2,1,24,
  24,43,3,44,1,7,2,6,8,41,58,55,1,1,1,4,8,4,1,3,7,10,2,13,1,15,1,58,1,4,4,8,1,20,2,26,1,2,2,57,1,4,
  2,4,2,2,3,3,1,30,2,3,1,11,2,57,1,4,5,1,2,4,1,20,2,22,6,1,1,58,1,2,1,1,4,8,1,7,2,11,2,30,1,61,1,12,
  1,50,1,3,1,55,1,1,3,5,3,1,4,7,2,11,2,29,1,58,1,2,1,6,1,5,2,20,2,28,2,57,2,4,4,8,1,20,2,29,1,72,1,
  7,3,1,1,90,1,2,7,11,9,98,1,2,9,9,1,1,6,74,2,27,1,1,1,1,1,55,14,1,5,1,2,5,11,1,36,9,1,102,4,1,6,1,
  2,2,2,25,2,4,3,16,4,13,1,2,2,6,1,15,1,94,1,608,3,946,3,29,2,30,2,30,2,64,2,1,7,8,1,2,11,3,1,5,1,
  45,5,51,1,65,2,34,1,118,3,4,2,9,1,6,3,219,2,2,1,58,1,1,7,1,1,1,1,2,8,6,10,2,1,39,1,8,31,49,4,48,1,
  1,5,1,1,5,1,40,9,12,2,32,4,2,2,1,3,56,1,1,2,3,1,1,3,58,8,2,2,64,6,82,3,1,13,1,7,4,1,6,1,3,2,50,63,
  13,1,34,101,445,1,1,3,11,3,13,3,13,3,13,2,12,5,8,2,10,1,2,1,2,5,49,5,1,10,1,1,13,1,16,13,51,33,
  2955,2,113,3,125,1,15,1,96,32,47,1,469,1,36,4,3,5,5,1,93,6,93,3,28438,1,1250,6,270,1,98,4,1,10,1,
  1,28,4,80,2,14,34,78,1,23,3,103,3,3,2,8,1,3,1,4,1,25,2,5,1,151,2,26,18,13,1,38,8,25,11,46,3,48,1,
  2,4,2,2,17,1,21,2,66,6,2,2,2,2,12,1,8,1,35,1,11,1,51,1,1,3,2,2,5,2,1,1,27,1,14,2,5,2,1,1,100,5,9,
  3,121,1,2,1,4,1,20272,1,147,17,573,16,3,1,12,16,34,1,2,1,169,1,7,1,6,1,11,1,35,1,1,1,47,1,45,2,67,
  1,21,3,513,1,226,1,149,5,1029,6,1,42,1,9,582,3,1,2,5,4,40,3,4,1,165,2,573,4,387,2,153,11,49,4,123,
  1,54,15,41,1,2,2,10,3,49,4,2,2,2,1,4,1,10,1,50,3,36,5,1,8,62,1,12,2,52,9,10,4,2,1,95,3,2,1,1,2,6,
  1,160,1,3,8,21,2,57,2,3,1,37,7,3,5,195,8,2,3,1,1,23,1,84,6,1,1,4,2,1,2,238,4,6,2,1,2,27,2,85,8,2,
  1,1,2,106,1,1,1,2,6,1,1,101,3,2,4,1,5,259,9,1,2,256,2,1,1,4,1,144,4,2,2,4,1,32,10,40,6,2,4,8,1,9,
  6,2,3,46,13,1,2,406,7,1,6,1,1,82,22,2,7,1,2,1,2,122,6,3,1,1,2,1,7,1,1,72,2,3,1,1,1,347,2,5435,9,
  14007,5,59,7,9,4,1035,1,63,17,64,2,1,2,16395,4,1,7,1,2,3230,2,1,4,4700,46,2,23,544,3,9,16,2,7,30,
  4,148,3,1979,55,4,50,8,1,14,1,22,5,1,15,1360,7,1,17,2,7,1,2,1,5,261,14,368,1,61,4,1504,7,109,8,
  2735,5,789505,1,30,96,128,240]

def isCased (c : Char) : Bool := casedRanges.has c

/-- Whether the next character that counts has a case. -/
def meetsCased (cs : List Char) : Bool :=
  match cs.dropWhile caseIgnorable.has with
  | [] => false
  | c :: _ => isCased c

/-- The lower case of a character between the text before it, nearest first, and the text after it.
-/
def lowerBetween (before : List Char) (c : Char) (after : List Char) : List Char :=
  if c == 'Σ' then [if meetsCased before && !meetsCased after then 'ς' else 'σ']
  else lowerMap.apply c

def upper (s : String) : String := String.ofList (s.toList.flatMap upperMap.apply)

/-- The title case of the rest of a text behind `before`, nearest first. -/
def titledFrom (before : List Char) : List Char → List Char
  | [] => []
  | c :: after =>
      let capital := match before with
        | [] => true
        | previous :: _ => !isCased previous
      (if capital then titleMap.apply c else lowerBetween before c after)
        ++ titledFrom (c :: before) after

/-- A text with a capital at the start of each word and small letters after it. -/
def titled (cs : List Char) : List Char := titledFrom [] cs

/-- A name with underscores as one word: each part in title case. -/
def joinedTitle (name : String) : String :=
  String.ofList (((split '_' name).map fun part => titled part.toList).flatten)

end Transcriber.Text
