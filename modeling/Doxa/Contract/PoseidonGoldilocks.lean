import Doxa.Contract.Calldata
import Doxa.Field.Goldilocks
import Doxa.Lib.Flagged

/-!
# The compression function of `PoseidonGoldilocks.sol`

The assembly of `compress`, on the twelve words it keeps in memory. Every addition and
multiplication that is not reduced is a step that must stay within the word, those on packed
words must keep the lanes apart, and `require` marks what the comments of the source and
the safety checks of its generator assume of a value: the S-box takes inputs below `2P`, the
packed layer lanes up to `2P + 2^33`, and a lane that stays unreduced through the partial
rounds at most `lazyLaneMax`. None of this changes what is computed.

Full rounds multiply by a matrix three rows at a time, packed into one word at the bit
offsets 0, 86 and 172. The partial rounds are in sparse form.
-/

namespace Doxa.PoseidonGoldilocks

open Lib Flagged Contract

/-! ## Constants -/

def round0Constants : List ℕ := [
  0xb585f766f2144405, 0x7746a55f43921ad7, 0xb2fb0d31cee799b4, 0x0f6760a4803427d7,
  0xe10d666650f4e012, 0x8cae14cb07d09bf1, 0xd438539c95f63e9f, 0xef781c7ce35b4c3d]

def firstRoundConstants : List (List ℕ) := [
  [0x86287821f722c881, 0x59cd1a8a41c18e55, 0xc3b919ad495dc574, 0xa484c4c5ef6a0781,
    0x308bbd23dc5416cc, 0x6e4a40c18f30c09c, 0x9a2eedb70d8f8cfa, 0xe360c6e0ae486f38,
    0xd5c7718fbfc647fb, 0xc35eae071903ff0b, 0x849c2656969c4be7, 0xc0572c8c08cbbbad],
  [0xe9fa634a21de0082, 0xf56f6d48959a600d, 0xf7d713e806391165, 0x8297132b32825daf,
    0xad6805e0e30b2c8a, 0xac51d9f5fcf8535e, 0x502ad7dc18c2ad87, 0x57a1550c110b3041,
    0x66bbd30e6ce0e583, 0x0da2abef589d644e, 0xf061274fdb150d61, 0x28b8ec3ae9c29633],
  [0x92a756e67e2b9413, 0x70e741ebfee96586, 0x019d5ee2af82ec1c, 0x6f6f2ed772466352,
    0x7cf416cfe7e14ca1, 0x61df517b86a46439, 0x85dc499b11d77b75, 0x4b959b48b9c10733,
    0xe8be3e5da8043e57, 0xf5c0bc1de6da8699, 0x40b12cbf09ef74bf, 0xa637093ecb2ad631]]

def lastRoundConstants : List (List ℕ) := [
  [0x475cd3205a3bdcde, 0x18a42105c31b7e88, 0x023e7414af663068, 0x15147108121967d7,
    0xe4a3dff1d7d6fef9, 0x01a8d1a588085737, 0x11b4c74eda62beef, 0xe587cc0d69a73346,
    0x1ff7327017aa2a6e, 0x594e29c42473d06b, 0xf6f31db1899b12d5, 0xc02ac5e47312d3ca],
  [0xe70201e960cb78b8, 0x6f90ff3b6a65f108, 0x42747a7245e7fa84, 0xd1f507e43ab749b2,
    0x1c86d265f15750cd, 0x3996ce73dd832c1c, 0x8e7fba02983224bd, 0xba0dec7103255dd4,
    0x9e9cbd781628fc5b, 0xdae8645996edd6a5, 0xdebe0853b1a1d378, 0xa49229d24d014343],
  [0x7be5b9ffda905e1c, 0xa3c95eaec244aa30, 0x0230bca8f4df0544, 0x4135c2bebfe148c6,
    0x166fc0cc438a3c72, 0x3762b59a8ae83efa, 0xe8928a4c89114750, 0x2a440b51a4945ee5,
    0x80cefd2b7d99ff83, 0xbb9879c6e61fd62a, 0x6e7c8f1a84265034, 0x164bb2de1bbeddc8],
  [0xf3c12fe54d5c653b, 0x40b9e922ed9771e2, 0x551f5b0fbe7b1840, 0x25032aa7c4cb1811,
    0xaaed34074b164346, 0x8ffd96bbf9c9c81d, 0x70fc91eb5937085c, 0x7f795e2a5f915440,
    0x4543d9df5476d3cb, 0xf172d73e004fc90d, 0xdfd1c4febcc81238, 0xbc8dfb627fe558fc]]

/-- What the constant capacity lanes contribute to each accumulator of round 0. -/
def round0Accumulators : List ℕ := [
  0x2de8709ead6591bf900000f3e783c9ebb72ce35c00043dca772285e11557b,
  0x2285b2354583d151d3000078cc0470ed0b0036780003cec47841c824bf60a,
  0x317efcda77b141e6200000a1f5776438dec1de4c0003c2b43a5728125b199,
  0x336fc2e08854296c7d0000d8bbffcd44b6c1e2e00003af474e510aa911322]

/-- Three rows of the matrix in one word, for each group of rows and each column. -/
def packedCoefficients : List (List ℕ) := [
  [0x220000000000000000000050000000000000000000019, 0x14000000000000000000004400000000000000000000f,
    0x11000000000000000000003c000000000000000000029, 0x0f00000000000000000000a4000000000000000000010,
    0x290000000000000000000040000000000000000000002, 0x10000000000000000000000800000000000000000001c,
    0x02000000000000000000007000000000000000000000d, 0x1c000000000000000000003400000000000000000000d,
    0x0d0000000000000000000034000000000000000000027, 0x0d000000000000000000009c000000000000000000012,
    0x270000000000000000000048000000000000000000022, 0x120000000000000000000088000000000000000000014],
  [0x0d000000000000000000009c000000000000000000012, 0x270000000000000000000048000000000000000000022,
    0x120000000000000000000088000000000000000000014, 0x220000000000000000000050000000000000000000011,
    0x14000000000000000000004400000000000000000000f, 0x11000000000000000000003c000000000000000000029,
    0x0f00000000000000000000a4000000000000000000010, 0x290000000000000000000040000000000000000000002,
    0x10000000000000000000000800000000000000000001c, 0x02000000000000000000007000000000000000000000d,
    0x1c000000000000000000003400000000000000000000d, 0x0d0000000000000000000034000000000000000000027],
  [0x02000000000000000000007000000000000000000000d, 0x1c000000000000000000003400000000000000000000d,
    0x0d0000000000000000000034000000000000000000027, 0x0d000000000000000000009c000000000000000000012,
    0x270000000000000000000048000000000000000000022, 0x120000000000000000000088000000000000000000014,
    0x220000000000000000000050000000000000000000011, 0x14000000000000000000004400000000000000000000f,
    0x11000000000000000000003c000000000000000000029, 0x0f00000000000000000000a4000000000000000000010,
    0x290000000000000000000040000000000000000000002, 0x10000000000000000000000800000000000000000001c],
  [0x0f00000000000000000000a4000000000000000000010, 0x290000000000000000000040000000000000000000002,
    0x10000000000000000000000800000000000000000001c, 0x02000000000000000000007000000000000000000000d,
    0x1c000000000000000000003400000000000000000000d, 0x0d0000000000000000000034000000000000000000027,
    0x0d000000000000000000009c000000000000000000012, 0x270000000000000000000048000000000000000000022,
    0x120000000000000000000088000000000000000000014, 0x220000000000000000000050000000000000000000011,
    0x14000000000000000000004400000000000000000000f, 0x11000000000000000000003c000000000000000000029]]

def partialFirstConstants : List ℕ := [
  0x3cc3f892184df408, 0xe993fd841e7e97f1, 0xf2831d3575f0f3af, 0xd2500e0a350994ca,
  0xc5571f35d7288633, 0x91d89c5184109a02, 0xf37f925d04e5667b, 0x2d6e448371955a69,
  0x740ef19ce01398a1, 0x694d24c0752fdf45, 0x60936af96ee2f148, 0xc33448feadc78f0c]

/-- The rows of `mds_partial_init`. -/
def partialInitialMatrix : List (List ℕ) := [
  [0x80772dc2645b280b, 0xe796d293a47a64cb, 0xdcedab70f40718ba, 0xf4a437f2888ae909,
    0xf97abba0dffb6c50, 0x7f8e41e0b0a6cdff, 0x726af914971c1374, 0x64dd936da878404d,
    0x85418a9fef8a9890, 0x156048ee7a738154, 0xd841e8ef9dde8ba0],
  [0xdc927721da922cf8, 0xb124c33152a2421a, 0x14a4a64da0b2668f, 0xc537d44dc2875403,
    0x5e40f0c9bb82aab5, 0x4b1ba8d40afca97d, 0x1d7f8a2cce1a9d00, 0x4db9a2ead2bd7262,
    0xd8a2eb7ef5e707ad, 0x91f7562377e81df5, 0x156048ee7a738154],
  [0xc1978156516879ad, 0x0ee5dc0ce131268a, 0x4715b8e5ab34653b, 0x7f68007619fd8ba9,
    0x5996a80497e24a6b, 0x623708f28fca70e8, 0x18737784700c75cd, 0xbe2e19f6d07f1a83,
    0xbfe85ababed2d882, 0xd8a2eb7ef5e707ad, 0x85418a9fef8a9890],
  [0x90e80c591f48b603, 0xa9032a52f930fae6, 0x1e8916a99c93a88e, 0xa4911db6a32612da,
    0x07084430a7307c9a, 0xbf150dc4914d380f, 0x7fb45d605dd82838, 0x02290fe23c20351a,
    0xbe2e19f6d07f1a83, 0x4db9a2ead2bd7262, 0x64dd936da878404d],
  [0x3a2432625475e3ae, 0x7e33ca8c814280de, 0xbba4b5d86b9a3b2c, 0x2f7e9aade3fdaec1,
    0xad2f570a5b8545aa, 0xc26a083554767106, 0x862361aeab0f9b6e, 0x7fb45d605dd82838,
    0x18737784700c75cd, 0x1d7f8a2cce1a9d00, 0x726af914971c1374],
  [0x00a2d4321cca94fe, 0xad11180f69a8c29e, 0xe76649f9bd5d5c2e, 0xe7ffd578da4ea43d,
    0xab7f81fef4274770, 0x753b8b1126665c22, 0xc26a083554767106, 0xbf150dc4914d380f,
    0x623708f28fca70e8, 0x4b1ba8d40afca97d, 0x7f8e41e0b0a6cdff],
  [0x77736f524010c932, 0xc75ac6d5b5a10ff3, 0xaf8e2518a1ece54d, 0x43a608e7afa6b5c2,
    0xcb81f535cf98c9e9, 0xab7f81fef4274770, 0xad2f570a5b8545aa, 0x07084430a7307c9a,
    0x5996a80497e24a6b, 0x5e40f0c9bb82aab5, 0xf97abba0dffb6c50],
  [0x904d3f2804a36c54, 0xf0674a8dc5a387ec, 0xdcda1344cdca873f, 0xca46546aa99e1575,
    0x43a608e7afa6b5c2, 0xe7ffd578da4ea43d, 0x2f7e9aade3fdaec1, 0xa4911db6a32612da,
    0x7f68007619fd8ba9, 0xc537d44dc2875403, 0xf4a437f2888ae909],
  [0xbf9b39e28a16f354, 0xb36d43120eaa5e2b, 0xcd080204256088e5, 0xdcda1344cdca873f,
    0xaf8e2518a1ece54d, 0xe76649f9bd5d5c2e, 0xbba4b5d86b9a3b2c, 0x1e8916a99c93a88e,
    0x4715b8e5ab34653b, 0x14a4a64da0b2668f, 0xdcedab70f40718ba],
  [0x3a1ded54a6cd058b, 0x6f232aab4b533a25, 0xb36d43120eaa5e2b, 0xf0674a8dc5a387ec,
    0xc75ac6d5b5a10ff3, 0xad11180f69a8c29e, 0x7e33ca8c814280de, 0xa9032a52f930fae6,
    0x0ee5dc0ce131268a, 0xb124c33152a2421a, 0xe796d293a47a64cb],
  [0x42392870da5737cf, 0x3a1ded54a6cd058b, 0xbf9b39e28a16f354, 0x904d3f2804a36c54,
    0x77736f524010c932, 0x00a2d4321cca94fe, 0x3a2432625475e3ae, 0x90e80c591f48b603,
    0xc1978156516879ad, 0xdc927721da922cf8, 0x80772dc2645b280b]]

/-- The arguments of one call of `fast_partial_round`. -/
structure FastRound where
  rc : ℕ
  v0 : ℕ
  v1 : ℕ
  v2 : ℕ
  w0 : ℕ
  w1 : ℕ
  w2 : ℕ

def fastPartialRounds : List FastRound := [
  ⟨0x74cb2e819ae421ab,
    0x0ba63a63e94b5ff0d667c2055387940fc6c67cc37a2a2bbd94877900674181c3,
    0xabcad82633b7bc9dea0870b47a8caf0e7ff02375ed524bb399460cc41b8f079f,
    0x00000000000000003ee8011c2b37f77cfb4515f5e5b0d5393b8d135261052241,
    0x887af7d4dd4823282421e5d236704588814e82efcd1725293d999c961b7c63b0,
    0x09c4155174a552cc64832009d29bcf57bdc52b2676a4b4aaa5e9c291f6119b27,
    0x0000000000000000043b1c289f7bc3acc810936e64982542463f9ee03d290810⟩,
  ⟨0xd2559d2370e7f663,
    0x6a065da88d8bfc3cc6b16f7ed4fa1b00a37bf67c6f9865590adef3740e71c726,
    0x42433fb6949a629a07a786d9cf0852cf407faac0f02e78d14cabc0916844b46f,
    0x00000000000000002bbf0ed7b657acb326cfd58e7b003b55891682a147ce43b0,
    0xa667bfa9aa96999d2c68a099b51c9e73d510fe714f39fa10673655aae8be5a8b,
    0x5ead03205009714240f9cc8c08f80981f84dde3e6acda1794d67e72f063e2108,
    0x00000000000000008a21bcd24a14218a00e18c71963dd1b76591b02092d671bb⟩,
  ⟨0x62bf78acf843d17c,
    0x5cfc82216bc1bdca73f260087ad28bece367de32f108e278481ac7746b159c67,
    0x3cc51c5d368693ae7bc9e0c57243e62ddb69cd7b4298c45dcaccc870a2663a0e,
    0x0000000000000000a752061c4f33b8cf2bd18715cdabbca4366b4e8cc068895b,
    0x8e0f68c5dc223b9abe32b32a825596e7e4b5bdb1cc3504ff202800f4addbdc87,
    0xaead42a3f445ecbf8b9352ad04bef9e7584d29227aa073ac58022d9e1c256ce3,
    0x0000000000000000e8f749470bd7c446da6f61838efa1ffe3c667a1d833a3cca⟩,
  ⟨0xd5ab7b67e14d1fb4,
    0x9e77fde2eb315e0d4b39e14ce22abd3c9e18a487f44d2fe4b22d2432b72d5098,
    0x8577a815a2ff843f99ec1cd2a4460bfe0c2cb99bf1b6bddbca5e0385fe67014d,
    0x00000000000000008f7851650eca21a5eb6c67123eab62cb7d80a6b4fd6518a5,
    0xe2ae0f051418112c16e6b8e68b93183045245258aec51cf7c5b85bab9e5b3869,
    0xb0be7356254bea2e119265be51812daf6bef71973a8146ed0470e26a0093a65b,
    0x00000000000000009e7cd88acf543a5e3c5fe4aeb1fb52ba8584defff7589bd7⟩,
  ⟨0xb9fe2ae6e0969bdc,
    0x535e8d6fac0031b2a821855c8c1cf5e59f7d798a3323410c11ba9a1b81718c2a,
    0xb53926c27897bf7d4db97d92e58bb831a729353f6e55d354404e7c751b634320,
    0x0000000000000000aae4438c877ea8f49565fa41ebd31fd7965040d52fe115c5,
    0xd99ddf1fe75085f96696670196b0074facf63d95d8887355179be4bba87f0a8c,
    0xc053297389af5d3b15226a8e4cd8d3b6cf48395ee6c54f14c2597881fef0283b,
    0x0000000000000000c82f510ecf81f6d00ed3cbcff6fcc5ba2c08893f0d1580e2⟩,
  ⟨0xe33fdf79f92a10e8,
    0x9f4310d05d068338c44998e99eae41884edc0918210800e937f4e36af6073c6e,
    0x59fa6f8bd91d58baa01920c5ef8b2ebec5b2c1fdc0b508749ec7fe4350680f29,
    0x0000000000000000cbb8bbaa3810babfbe86a7a2555ae7758bfc9eb89b515a82,
    0x05830a443f86c4ac861cc95ad5c86323500392ed0d43113794b06183acb715cc,
    0xbdecf5e0cb9cb2139b77fc8bcd559e2c10b3309838e236fb3b68225874a20a7c,
    0x0000000000000000eac6db520bb037087935dd342764a14430276f1221ace5fa⟩,
  ⟨0x0ea2bb4c2b25989b,
    0x8283d37c6675b50e82f07007c8b7210688c522b949ace7b1577f9a9e7ee3f9c2,
    0x26d7c3d1bc07dae5fed24e206052bc7275c56fb7758317c198b074d9bbac1123,
    0x0000000000000000514d4ba49c2b14fe4fe27f9f96615270f88c5e441e28dbb4,
    0x55f1523ac6a23ea2c4cbe326d1ad9742622247557e9b53717186a80551025f8f,
    0xcd800caef5b72ae308bd488070a3a32be30750b6301c0452a13dfe77a3d52f53,
    0x00000000000000006b0731849e200a7fb5b99e6664a0a3ee83329c90f04233ce⟩,
  ⟨0xca9121fbf9d38f06,
    0x9a95f6cff5b55c7ece0dc874eaf9b55c0a3630dafb8ae2d7f02a3ac068ee110b,
    0x3d4bd48b625a8065daebd3006321052ca0c1cf1251c204ad626d76abfed00c7b,
    0x0000000000000000e3260ba93d23540a720574f0501caed37f1e584e071f6ed2,
    0x514abd0cf6c7bc863bfb6c3f0e616572382b38cee8ee5375ec3fabc192b01799,
    0x738450e42495bc81ad1003c5d28918e7178093843f863d1447521b1361dcc546,
    0x0000000000000000057fde2062ae35bf4653fb0685084ef2af947c59af5e4047⟩,
  ⟨0xbdd9b0aa81f58fa4,
    0x94178e291145c23151c3c0983d4284e59322ed4c0bc2df01ab1cbd41d8c1e335,
    0xdc20ee4b8c4c9a808a52437fecaac06bd427ad96e2b39719fd0f1a973d6b2085,
    0x00000000000000000e174929433c55051603fe12613db5b6a2c98e9549da2100,
    0x3929624a9def725b7817f3dfff8b4ffa66f3860d7514e7fce376678d843ce55e,
    0x85b481e5243f60bf1bc927375febbad7fce2f5d02762a3030126ca37f215a80a,
    0x0000000000000000f669de0add9931310811719919351ae82d3c5f42a39c91a0⟩,
  ⟨0x83079fa4ecf20d7e,
    0x22365051b78a5b654143cb32d39ac3d9cfff421583896e223d4eab2b8ef5f796,
    0x3fc83d3038c86417a44cf1cb33e37165d9dd36fba77522ab6f7fd010d027c9b6,
    0x0000000000000000db5eadbbec18de5dce1320f10ab80fe2c4588d418e88d270,
    0x31e6a4bdb6a49017f6c705da84d573105b848442237e8a9b7de38bae084da92d,
    0x5f5894f4057d755ebac3fa75ee26f2990e4a205459692a1b889489706e5c5c0f,
    0x000000000000000004f78fd8c1fdcc5f5e34d8554a6452bab0dc3ecd724bb076⟩,
  ⟨0x650b838edfcc4ad3,
    0x19557d34b55551be0fce6f70303f230421cea4aa3d3ed9491183dfce7c454afd,
    0xf318c785dc9e0479bad66d423d2ec861a1e920844334f9444c56f689afc5bbc9,
    0x0000000000000000e1197454db2e0dd9400ccc9906d66f4599e2032e765ddd81,
    0xd5177029fe49516692a29a3675a5d2bedb79ba02704620e94dd19c38779512ea,
    0x3301d3362a4ffccbe1c48b26e0d98825251c4a3eb2c5f8fdd32b3298a13330c1,
    0x000000000000000060192d883e473feedc05b676564f538a09bb6c88de8cd178⟩,
  ⟨0x77180c88583c76ac,
    0xc756f17fb59be595335856bb527b52f4d8af8b9ceb4e11b684d1ecc4d53d2ff1,
    0xd7009f0f103be41314fc8b5b3b8091279e9a46b61f2ea942c0654e4ea5553a78,
    0x0000000000000000e80a7cde3d4ac526a74e888922085ed73e0ee7b7a9fb4601,
    0x0178928152e109aea86e9cf5050724913cb8411e786d3c8e16b9774801ac44a0,
    0x4bd545218c59f58dcb97dedecebee9adda20b3be7f53d59f5317b905a6e1ab7b,
    0x00000000000000007e5217af969952c287948589e4f243fd77dc8d856c05a44a⟩,
  ⟨0xaf8c20753143a180,
    0x217e4f04e5718dc9c7db3817870c5eda9137a5c630bad4b4238aa6daa612186d,
    0x3c7835fb85bca2d37bb36ef70b6b9482e3292e7ab770a8bacae814e2817bd99d,
    0x0000000000000000eab75ca7c918e4ef61b3915ad7274b20fe2cdf8ee3c25e86,
    0x3aace640a3e03990a3c4711b938c02c00b5d420244c9cae3bc58987d06a84e4d,
    0x045322b216ec3ec76eacb905beb7e2f88d00b2a7dbed06c7865a0f3249aacd8a,
    0x0000000000000000f555f4112b19781f088c5f20df9e5c26eb9de00d594828e6⟩,
  ⟨0xb8ccfe9989a39175,
    0xdc9d2e07830ba226fbb1196092bf409cec67881f381a32bfd6e15ffc055e154e,
    0x7aebfea95ccdd1c97a5d9bea6ca4910e194fae2974f8b5760698ef3245ff7988,
    0x0000000000000000f0dfcbe7653ff787fa65539de65492d8f9bd38a67d5f0e86,
    0xfaf322786e2abe8bf1cb02417e23bd8250dcaee0fd27d164a8cedbff1813d3a7,
    0x0e7946317a6b4e997d66c4368b3c497b1b18992921a11d85937a4315beb5d9b6,
    0x0000000000000000a671690d8095ce823771e82493ab262dbe4430134182978b⟩,
  ⟨0x954a1729f60cc9c5,
    0x0ac6fc58b3f0518f0c00ad377a1e26660ad8617bca9e33c80bd87ad390420258,
    0x0c8be4920cbd4a540b73630dbb46ca180c210accb117bc210c0cc8a892cc4173,
    0x00000000000000000bf50db2f8d6ce310ae790559b0ded810bfe877a21be1690,
    0x287bf9177372cf45cb201cf846db4ba3ba1579c7e219b954b035585f6e929d9d,
    0xe1e66c991990e2822e166aa6c776ed21d5d0ecfb50bcff99a350e4f61147d0a6,
    0x0000000000000000cbabf78f97f95e658aa674b36144d9a9662b329b01e7bb38⟩,
  ⟨0xdeb5b550c4dca53b,
    0x000bc792d5c394ef000d1dc8aa81fb26000bd9b3cf49eec8000cf29427ff7c58,
    0x000db5ebd48fc0d4000c84128cfed618000d413f12c496c1000d2ae0b2266453,
    0x0000000000000000000d10e5b22b11d1000beb0ccc145421000d1b77326dcb90,
    0xb9173f13977109a1efe9c6fa4311ad51c8a7aa07c5633533eec24b15a06b53fe,
    0xccfc5f7de5c3636a28625def198c33c7ecf623c9cd11881569ce43c9cc94aedc,
    0x0000000000000000a868ea113387939fcec0e58c34cb64b1f5e6c40f1621c299⟩,
  ⟨0xf01bb0b00f77011e,
    0x00000cde5fd7e04f00000e580cbf696600000cf389ed4bc800000e24c99adad8,
    0x00000efb14cac55400000dabe78f6d9800000e7e81a8736100000e63628041b3,
    0x000000000000000000000e4690c96af100000d05709f42c100000e5574743b10,
    0x9e65309f15943903146bb3c0fe499ac0acfc51de8131458cd8dddbdc5ce4ef45,
    0x0dfdc7fd6fc74f66e4626620a75ba276f97817d4ddbf060780d0ad980773aa70,
    0x0000000000000000dd8de62487c4092502d55e52a5d44414f464864ad6f2bb93⟩,
  ⟨0xa1ebb404b676afd9,
    0x0000000e0d127e2f0000000fa65811e60000000e3006d9480000000f7157bc98,
    0x00000010685627540000000eed6461d80000000fd002d9010000000fc18bfe53,
    0x00000000000000000000000fa460f6d10000000e3af13ee10000000fa0236f50,
    0x2599c5ead81d8fa333f62042e2f80225cbfdcf39869719d4c15acf44759545a3,
    0xa1b67f09d4b3ccb8e8d1b2b21b41429c658c80d3df3729b10b306cb6c1d7c8d0,
    0x0000000000000000a023d94c56e151c70d593a5e584af47b0e1adf8b84437180⟩,
  ⟨0x860b6e1597a0173e,
    0x000000000f848f4f0000000011050f86000000000f56d5880000000011131738,
    0x0000000011e2ca9400000000106f2f3800000000114369a100000000111527d3,
    0x00000000000000000000000010f625d1000000000fa9f5c100000000110a29f0,
    0x92c3c8275e105eeb0ab38c561e8850ffe06dff00ab25b91b49026cc3a4afc5a6,
    0xa206f41b12c30415ee61766b889e18f23c0468236ea142f6b65256e546889bd0,
    0x00000000000000001ffea9fe85a0b0b1e9633210630cbf1202fe9d756c9f12d1⟩,
  ⟨0x308bb65a036acbce,
    0x000000000010cf7f0000000000134a96000000000010b6c8000000000011f718,
    0x0000000000132c940000000000117c58000000000013f8a10000000000124d03,
    0x00000000000000000000000000128961000000000010a0910000000000134fc0,
    0x0b0a6b70915178c3ed446b2315e3efc1f4c77a079a4607d781d1ae8cc50240f3,
    0xa2df8c6b8ae0804a65d74e2f43b48d051d4dba0b7ae9cc18b11ff3e089f15d9a,
    0x0000000000000000a6b6582c547d0d60c0a26efc7be5669ba4e6f0a8c33348a6⟩,
  ⟨0x1aca78f31c97c876,
    0x000000000000131f000000000000114e00000000000017500000000000001300,
    0x000000000000182c00000000000012300000000000001371000000000000167b,
    0x000000000000000000000000000015c90000000000000f310000000000001368,
    0x0bb005236adb9ef2de682d72da0a02d92f8f43734fc906f384afc741f1c13213,
    0xcbaf4e5d82856c6052f515f44785cfbc0739a8a3439500105bdf35c10a8b5624,
    0x00000000000000001a37905d8450904a8f0fa011a2035fb0ac9ea09074e3e150⟩,
  ⟨0x0000000000000000,
    0x0000000000000027000000000000001200000000000000220000000000000014,
    0x0000000000000002000000000000001c000000000000000d000000000000000d,
    0x0000000000000000000000000000000f00000000000000290000000000000010,
    0x9daf69ae1b67e667075a652d9641a9859d19c9dd4eac41333abeb80def61cc85,
    0x2f885e584e04aa99f223d1180dbbf3fc50bd769f745c95b1364f71da77920a18,
    0x00000000000000000bc051640145b19b09584acaa6e062a0b69a0fa70aea684a⟩]

/-! ## Words -/

def P : U256 := 0xffffffff00000001#256
def mask86 : U256 := 0x3fffffffffffffffffffff#256
def mask64 : U256 := 0xffffffffffffffff#256

def word (n : ℕ) : U256 := BitVec.ofNat 256 n

/-- The product is reduced before it is cut to a word. -/
def mulmod (x y m : U256) : U256 :=
  if m = 0 then 0 else word (x.toNat * y.toNat % m.toNat)

/-- The words at `base`, `base + 0x20` and so on. -/
abbrev Lanes := Vector U256 12

/-! ## The safety checks of the generator -/

/-- `max_element`. -/
def maxElement : ℕ := 2 * ORDER + 2 ^ 33

/-- `after_first_const`. -/
def afterFirstConst : ℕ := 2 * ORDER

/-- The 64-bit constant for lane `i + 1`, four of them in a word. -/
def constantLane (v0 v1 v2 : ℕ) (i : ℕ) : ℕ :=
  lane 64 (i % 4) (if i < 4 then v0 else if i < 8 then v1 else v2)

def maxOf (l : List ℕ) : ℕ := l.foldr max 0

/-- `max_init_lane`. -/
def maxInitLane : ℕ :=
  maxOf (partialInitialMatrix.map fun row => (row.map fun c => afterFirstConst * c).sum)

/-- `max_v`. -/
def maxV : ℕ :=
  maxOf (fastPartialRounds.map fun t =>
    maxOf ((List.range 11).map (constantLane t.v0 t.v1 t.v2)))

/-- `lazy_lane_max`. -/
def lazyLaneMax : ℕ := maxInitLane + fastPartialRounds.length * afterFirstConst * maxV

/-! ## The code -/

def sbox7 (x : U256) : Flagged U256 := do
  require (x.toNat < 2 * ORDER)
  let x2 ← mul x x
  let x3 ← mul x2 x
  let x6 := mulmod x3 x3 P
  pure (mulmod x6 x P)

/-- The rows packed in an accumulator. -/
def unpackRow (acc : U256) : Fin 3 → U256 :=
  ![mulmod (acc &&& mask86) 1 P, mulmod ((acc >>> 86) &&& mask86) 1 P, mulmod (acc >>> 172) 1 P]

def unpackRows (accs : Vector U256 4) : Lanes :=
  Vector.ofFn fun i => unpackRow accs[i.val / 3] ⟨i.val % 3, Nat.mod_lt _ (by decide)⟩

def packedCoefficient (group column : ℕ) : U256 :=
  word ((packedCoefficients.getD group []).getD column 0)

def round0 (s : Lanes) : Flagged Lanes := do
  let t ← ofFn fun i : Fin 8 => do
    let x ← add s[i.val] (word (round0Constants.getD i 0))
    sbox7 x
  require (∀ i : Fin 8, (t.get i).toNat ≤ maxElement)
  let accs ← ofFn fun g : Fin 4 =>
    mulAddLanes 86 3 (word (round0Accumulators.getD g 0))
      (List.ofFn fun j : Fin 8 => (packedCoefficient g j, t.get j))
  pure (unpackRows accs)

def mds (s : Lanes) : Flagged Lanes := do
  require (∀ i : Fin 12, (s.get i).toNat ≤ maxElement)
  let accs ← ofFn fun g : Fin 4 =>
    dotLanes 86 3 (List.ofFn fun j : Fin 12 => (packedCoefficient g j, s.get j))
  pure (unpackRows accs)

/-- One full round after round 0. -/
def fullRound (rcs : List ℕ) (s : Lanes) : Flagged Lanes := do
  let t ← ofFn fun i : Fin 12 => do
    let x ← add (s.get i) (word (rcs.getD i 0))
    sbox7 x
  mds t

/-- The constants added before the partial rounds. -/
def addFirstConstants (s : Lanes) : Flagged Lanes :=
  ofFn fun i : Fin 12 => add (s.get i) (word (partialFirstConstants.getD i 0))

def mdsPartialInit (s : Lanes) : Flagged Lanes := do
  require (∀ i : Fin 11, (s.get i.succ).toNat < afterFirstConst)
  let t ← ofFn fun j : Fin 11 =>
    dot (List.ofFn fun i : Fin 11 =>
      (word ((partialInitialMatrix.getD j []).getD i 0), s.get i.succ))
  pure (Vector.ofFn fun i => if h : i.val = 0 then s.get i else t[i.val - 1])

/-- The constant for lane `i + 1` as the code unpacks it. -/
def unpackConstant (v0 v1 v2 : U256) (i : Fin 11) : U256 :=
  ((if i.val < 4 then v0 else if i.val < 8 then v1 else v2) >>> (64 * (i.val % 4))) &&& mask64

def fastPartialRound (s : Lanes) (rc v0 v1 v2 w0 w1 w2 : U256) : Flagged Lanes := do
  require (∀ i : Fin 11, (s.get i.succ).toNat ≤ lazyLaneMax)
  let x ← sbox7 (s.get 0)
  let s0 ← add x rc
  require (s0.toNat < afterFirstConst)
  let d ← mul 25 s0
  let d ← mulAdd d (List.ofFn fun i : Fin 11 => (s.get i.succ, unpackConstant w0 w1 w2 i))
  let t ← ofFn fun i : Fin 11 => do
    let p ← mul s0 (unpackConstant v0 v1 v2 i)
    add (s.get i.succ) p
  require (∀ i : Fin 11, (t.get i).toNat ≤ lazyLaneMax)
  pure (Vector.ofFn fun i => if h : i.val = 0 then mulmod d 1 P else t[i.val - 1])

/-- The lanes left unreduced by the partial rounds, reduced where round 26 reads them. -/
def reduceLanes (s : Lanes) : Lanes :=
  Vector.ofFn fun i => if i.val = 0 then s.get i else mulmod (s.get i) 1 P

def setup (left right : U256) : Lanes :=
  #v[left &&& mask64, (left >>> 64) &&& mask64, (left >>> 128) &&& mask64, left >>> 192,
    right &&& mask64, (right >>> 64) &&& mask64, (right >>> 128) &&& mask64, right >>> 192,
    0, 0, 0, 0]

def packOutput (s : Lanes) : U256 := s.get 0 ||| (s.get 1 <<< 64) ||| (s.get 2 <<< 128) ||| (s.get 3 <<< 192)

def permute (s : Lanes) : Flagged Lanes := do
  let s ← round0 s
  let s ← firstRoundConstants.foldlM (fun s rcs => fullRound rcs s) s
  let s ← addFirstConstants s
  let s ← mdsPartialInit s
  let s ← fastPartialRounds.foldlM (fun s t => fastPartialRound s (word t.rc) (word t.v0)
    (word t.v1) (word t.v2) (word t.w0) (word t.w1) (word t.w2)) s
  lastRoundConstants.foldlM (fun s rcs => fullRound rcs s) (reduceLanes s)

/-- `compress` with the flag of its steps. -/
def compressSteps (left right : U256) : Flagged U256 := do
  let s ← permute (setup left right)
  pure (packOutput s)

def compress (left right : U256) : U256 := (compressSteps left right).value

end Doxa.PoseidonGoldilocks
